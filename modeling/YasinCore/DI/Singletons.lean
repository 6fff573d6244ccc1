import YasinCore.DI.Frames
import YasinCore.DI.Periods

namespace YasinCore.DI

open YasinCore.Library
open Operation

variable {σ ι : Type}

def Provider.NeverNone (provider : Provider σ ι) : Prop :=
  ∀ arguments world world', provider.call arguments world ≠ .ok none world'

-- The provider leaves the notes alone.
def Provider.Quiet (provider : Provider (Observed σ ι) ι) : Prop :=
  ∀ arguments events, Maintains (fun w => w.events = events) (provider.call arguments)

section Recorded

variable {registrations : Dict Key (Registration σ ι)} {events : List (Event ι)} {event : Event ι}
  {key : Key} {reg : Registration σ ι}

-- The notes and the registrations agree.
structure Recorded (registrations : Dict Key (Registration σ ι)) (events : List (Event ι)) : Prop where
  told : ∀ key reg, registrations.get? key = some reg → ∃ period,
    Since events key reg.lifetime period ∧ (reg.lifetime = .singleton → Told reg period)
  past : OnceBuilt events

namespace Recorded

theorem init : Recorded (.empty : Dict Key (Registration σ ι)) ([] : List (Event ι)) where
  told key reg h := by
    rw [Dict.get?_empty] at h
    cases h
  past := .nil

theorem told_since (h : Recorded registrations events) (hget : registrations.get? key = some reg)
    (hsingleton : reg.lifetime = .singleton) {period : List (Event ι)}
    (hsince : Since events key .singleton period) : Told reg period := by
  obtain ⟨period', hsince', htold⟩ := h.told key reg hget
  obtain ⟨_, rfl⟩ := hsince.unique hsince'
  exact htold hsingleton

theorem register (h : Recorded registrations events) (reg : Registration σ ι) :
    Recorded (registrations.set reg.key reg) (events ++ [.registered reg.key reg.lifetime]) where
  told other found hget := by
    rw [Dict.get?_set] at hget
    split at hget
    · rename_i he
      cases hget
      rw [he]
      exact ⟨[], .registered events _ _, fun _ => .nil reg⟩
    · rename_i hne
      obtain ⟨period, hsince, htold⟩ := h.told other found hget
      have hnot : (Event.registered reg.key reg.lifetime : Event ι).registers other = false :=
        decide_eq_false (Ne.symm hne)
      refine ⟨period ++ [.registered reg.key reg.lifetime], hsince.snoc hnot, fun hsingleton => ?_⟩
      refine (htold hsingleton).snoc_other fun object hnames => ?_
      rcases hnames with hn | hn
      · cases hn
      · cases hn
  past := by
    refine h.past.snoc fun other period hsince hnot => ?_
    refine (h.past events List.prefix_rfl other period hsince).snoc fun object hnames => ?_
    rcases hnames with hn | hn
    · cases hn
    · cases hn

-- A note about the object that a registration has
theorem note (h : Recorded registrations events) (hkeyed : Keyed registrations)
    (hget : registrations.get? key = some reg) {object : Option ι} (hnames : event.Names key object)
    (hobject : reg.lifetime = .singleton → reg.object = object ∧
      (reg.factoryOrClass.isSome → object.isSome) ∧
      (event.completes key → ∀ period, Since events key .singleton period →
        ∀ event ∈ period, ∀ object, ¬event.Names key object)) :
    Recorded registrations (events ++ [event]) := by
  have hregisters := hnames.registers_eq
  have htold (other : Key) (found : Registration σ ι) (hother : registrations.get? other = some found)
      (hsingleton : found.lifetime = .singleton) {period : List (Event ι)}
      (hsince : Since events other .singleton period) : Told found (period ++ [event]) := by
    have hperiod := h.told_since hother hsingleton hsince
    have hfoundkey := hkeyed other found hother
    by_cases he : other = key
    · subst he
      have hsame : found = reg := Option.some.inj (hother.symm.trans hget)
      subst hsame
      obtain ⟨hsame, hsome, hfirst⟩ := hobject hsingleton
      subst hfoundkey
      rw [← hsame] at hnames hsome
      exact hperiod.snoc_names hnames hsome fun hc => hfirst hc period hsince
    · refine hperiod.snoc_other fun given hgiven => he ?_
      rw [← hfoundkey]
      exact (hnames.eq_of_names hgiven).1
  refine ⟨fun other found hother => ?_, h.past.snoc fun other period hsince _ => ?_⟩
  · obtain ⟨period, hsince, _⟩ := h.told other found hother
    refine ⟨period ++ [event], hsince.snoc (hregisters other), fun hsingleton => ?_⟩
    rw [hsingleton] at hsince
    exact htold other found hother hsingleton hsince
  · by_cases he : other = key
    · subst he
      obtain ⟨period', hsince', _⟩ := h.told other reg hget
      have hsingleton := (hsince.unique hsince').1.symm
      have hbuilt := (htold other reg hget hsingleton hsince).builtOnce
      rw [hkeyed other reg hget] at hbuilt
      exact hbuilt
    · exact (h.past events List.prefix_rfl other period hsince).snoc fun given hgiven =>
        he (hnames.eq_of_names hgiven).1

-- The object of a registration about which the notes are silent
theorem cache (h : Recorded registrations events) (hkey : reg.key = key)
    (hget : registrations.get? key = some reg)
    (hsilent : reg.lifetime = .singleton → ∀ period, Since events key .singleton period →
      ∀ event ∈ period, ∀ object, ¬event.Names key object) (object : Option ι) :
    Recorded (registrations.set key { reg with object := object }) events where
  told other found hother := by
    rw [Dict.get?_set] at hother
    split at hother
    · rename_i he
      subst he
      cases hother
      obtain ⟨period, hsince, _⟩ := h.told other reg hget
      refine ⟨period, hsince, fun hsingleton => .of_silent ?_⟩
      subst hkey
      rw [show reg.lifetime = .singleton from hsingleton] at hsince
      exact hsilent hsingleton period hsince
    · exact h.told other found hother
  past := h.past

end Recorded

end Recorded

section Frames

variable {classes : Classes (Observed σ ι) ι} {plan : Dict Key (Registration (Observed σ ι) ι)}
  {stack pending : List Key} {key : Key}

-- What is known of the providers of a container
structure Wired (classes : Classes (Observed σ ι) ι) (plan : Dict Key (Registration (Observed σ ι) ι)) :
    Prop where
  keyed : Keyed plan
  quiet : ∀ key provider, providerOf classes plan key = some provider → provider.Quiet
  given : ∀ key reg provider, lookup classes plan key = some reg → reg.lifetime = .singleton →
    reg.factoryOrClass = some provider → provider.NeverNone

-- The state between two steps of a resolution. The singletons that the pending keys find are not
-- built yet.
structure Good (classes : Classes (Observed σ ι) ι) (plan : Dict Key (Registration (Observed σ ι) ι))
    (stack pending : List Key) (s : System (Observed σ ι) ι) : Prop where
  shape : s.container.plan = plan
  resolving : s.container.resolving = stack
  unbuilt : ∀ key ∈ pending, ∀ reg, s.container.findRegistration classes key = some reg →
    reg.lifetime = .singleton → reg.object = none
  recorded : Recorded s.container.registrations s.world.events

namespace Good

variable {s : System (Observed σ ι) ι}

-- A step that leaves the container and the notes alone
theorem of_world (h : Good classes plan stack pending s) {world : Observed σ ι}
    (hevents : world.events = s.world.events) :
    Good classes plan stack pending { s with world := world } where
  shape := h.shape
  resolving := h.resolving
  unbuilt := h.unbuilt
  recorded := by
    rw [hevents]
    exact h.recorded

theorem noting (h : Good classes plan stack pending s) {event : Event ι}
    (hrecorded : Recorded s.container.registrations (s.world.events ++ [event])) :
    Good classes plan stack pending (s.noting event) where
  shape := h.shape
  resolving := h.resolving
  unbuilt := h.unbuilt
  recorded := hrecorded

theorem push (h : Good classes plan stack stack s)
    (hkey : ∀ reg, s.container.findRegistration classes key = some reg → reg.lifetime = .singleton →
      reg.object = none) :
    Good classes plan (stack ++ [key]) (stack ++ [key])
      { s with container := { s.container with resolving := s.container.resolving ++ [key] } } where
  shape := h.shape
  resolving := by
    dsimp only
    rw [h.resolving]
  unbuilt other hm reg hfind := by
    rcases List.mem_append.mp hm with hm | hm
    · exact h.unbuilt other hm reg hfind
    · rw [List.mem_singleton.mp hm] at hfind
      exact hkey reg hfind
  recorded := h.recorded

theorem pop (h : Good classes plan (stack ++ [key]) pending s) :
    Good classes plan stack pending
      { s with container := { s.container with resolving := s.container.resolving.dropLast } } where
  shape := h.shape
  resolving := by
    dsimp only
    rw [h.resolving, List.dropLast_concat]
  unbuilt := h.unbuilt
  recorded := h.recorded

theorem shrink (h : Good classes plan stack (pending ++ [key]) s) : Good classes plan stack pending s where
  shape := h.shape
  resolving := h.resolving
  unbuilt other hm := h.unbuilt other (List.mem_append_left _ hm)
  recorded := h.recorded

end Good

-- The parameters that were resolved are not on the stack.
def Clear (classes : Classes (Observed σ ι) ι) (plan : Dict Key (Registration (Observed σ ι) ι))
    (stack : List Key) (params : List (Parameter ι)) : Prop :=
  ∀ param ∈ params, ∀ key, injectedKey classes plan param = some key → key ∉ stack

-- A resolver returns only for keys that are not on the stack, and keeps the state good.
def Resolves (classes : Classes (Observed σ ι) ι) (plan : Dict Key (Registration (Observed σ ι) ι))
    (resolver : Key → Operation (Observed σ ι) ι (Option ι)) : Prop :=
  ∀ stack key, (stack ++ [key]).IsChain (Needs classes plan) →
    Triple (Good classes plan stack stack) (resolver key)
      (fun _ s => Good classes plan stack stack s ∧ key ∉ stack) fun _ => Good classes plan stack stack

variable {resolver : Key → Operation (Observed σ ι) ι (Option ι)}
  {provider : Provider (Observed σ ι) ι} {s : System (Observed σ ι) ι}

theorem resolveParameters_clear {params : List (Parameter ι)}
    (h : ∀ param ∈ params, ∀ key, injectedKey classes plan param = some key →
      Triple (Good classes plan stack stack) (resolver key)
        (fun _ s => Good classes plan stack stack s ∧ key ∉ stack) fun _ => Good classes plan stack stack)
    (arguments : Dict String (Option ι)) :
    Triple (Good classes plan stack stack)
      (resolveParameters classes resolver provider params arguments)
      (fun _ s => Good classes plan stack stack s ∧ Clear classes plan stack params)
      fun _ => Good classes plan stack stack :=
  resolveParameters_triple (fun _ hs => hs.shape) h arguments

theorem construct_good (hquiet : provider.Quiet) (arguments : Dict String (Option ι)) :
    Maintains (Good classes plan stack pending) (construct provider arguments) := by
  intro s hs
  have hcall := hquiet arguments s.world.events s.world rfl
  unfold construct
  revert hcall
  cases provider.call arguments s.world with
  | ok object world => exact fun hevents => hs.of_world hevents
  | error e world => exact fun hevents => hs.of_world hevents

theorem construct_isSome (h : provider.NeverNone) (arguments : Dict String (Option ι)) :
    Triple (fun _ => True) (construct provider arguments) (fun object _ => object.isSome)
      fun _ _ => True := by
  intro s _
  have hcall := h arguments s.world
  unfold construct
  revert hcall
  cases provider.call arguments s.world with
  | ok object world =>
      cases object with
      | some object => exact fun _ => rfl
      | none => exact fun hcall => absurd rfl (hcall world)
  | error e world => exact fun _ => trivial

-- A provider that completes for a key needs nothing that is on the stack.
theorem inject_clear (hresolver : Resolves classes plan resolver)
    (hchain : (stack ++ [key]).IsChain (Needs classes plan))
    (hprovider : providerOf classes plan key = some provider) (hquiet : provider.Quiet) :
    Triple (Good classes plan (stack ++ [key]) (stack ++ [key]))
      (inject classes resolver provider)
      (fun object s => (Good classes plan (stack ++ [key]) (stack ++ [key]) s ∧
        Clear classes plan (stack ++ [key]) (Provider.injected provider)) ∧
        (provider.NeverNone → object.isSome))
      fun _ => Good classes plan (stack ++ [key]) (stack ++ [key]) := by
  have hparams : ∀ param ∈ Provider.injected provider, ∀ other,
      injectedKey classes plan param = some other →
      Triple (Good classes plan (stack ++ [key]) (stack ++ [key])) (resolver other)
        (fun _ s => Good classes plan (stack ++ [key]) (stack ++ [key]) s ∧ other ∉ stack ++ [key])
        fun _ => Good classes plan (stack ++ [key]) (stack ++ [key]) := by
    intro param hm other hother
    refine hresolver (stack ++ [key]) other (hchain.append (List.isChain_singleton other) ?_)
    intro last hlast next hnext
    rw [List.getLast?_concat, Option.mem_some_iff] at hlast
    rw [List.head?_cons, Option.mem_some_iff] at hnext
    subst hlast hnext
    exact ⟨provider, hprovider, param, hm, hother⟩
  refine .bind (resolveParameters_clear hparams .empty) fun arguments => ?_
  intro s ⟨hs, hclear⟩
  have hgood := construct_good hquiet arguments s hs
  have hsome (h : provider.NeverNone) := construct_isSome h arguments s trivial
  revert hgood hsome
  cases construct provider arguments s with
  | ok object t => exact fun hgood hsome => ⟨⟨hgood, hclear⟩, hsome⟩
  | error e t => exact fun hgood _ => hgood

-- What is known of the registration that has answered a key
def Answered (found : Option (Registration (Observed σ ι) ι)) (object : Option ι)
    (s : System (Observed σ ι) ι) : Prop :=
  ∀ reg, found = some reg → ∃ now, s.container.registrations.get? reg.key = some now ∧
    now.factoryOrClass = reg.factoryOrClass ∧ (now.lifetime = .singleton → now.object = object ∧
      (reg.factoryOrClass.isSome → object.isSome) ∧
      (reg.factoryOrClass.isSome → Registration.isBuilt reg = false → ∀ period,
        Since s.world.events reg.key .singleton period →
        ∀ event ∈ period, ∀ object, ¬event.Names reg.key object))

theorem Good.registered (h : Good classes plan stack pending s) (hkeyed : Keyed plan)
    {planned : Registration (Observed σ ι) ι} (hlookup : lookup classes plan key = some planned) :
    ∃ now, s.container.findRegistration classes key = some now ∧ now.erased = planned ∧
      s.container.registrations.get? planned.key = some now := by
  exact exists_found hkeyed h.shape hlookup

-- The object of the key on top of the stack is cached. The other keys of the stack do not find it.
theorem Good.cache (h : Good classes plan stack (pending ++ [key]) s) (hkeyed : Keyed plan)
    {reg : Registration (Observed σ ι) ι} (hfind : s.container.findRegistration classes key = some reg)
    (hsilent : ∀ period, Since s.world.events reg.key .singleton period →
      ∀ event ∈ period, ∀ object, ¬event.Names reg.key object)
    (hne : ∀ other ∈ pending, lookup classes plan other ≠ some reg.erased) (object : Option ι) :
    Good classes plan stack pending { s with container := { s.container with
      registrations := s.container.registrations.set reg.key { reg with object := object } } } := by
  have hget := registered_of_find (hkeyed.of_plan h.shape) hfind
  have hplanned := planned_of_find hkeyed h.shape hfind
  have herased : plan.get? reg.key = some { reg with object := object }.erased := hplanned
  have hshape := plan_set herased h.shape
  refine ⟨hshape, h.resolving, fun other hm found hfound hsingleton => ?_, ?_⟩
  · have hbefore := find_of_cached hkeyed h.shape hplanned (hne other hm) hfound
    exact h.unbuilt other (List.mem_append_left _ hm) found hbefore hsingleton
  · exact h.recorded.cache rfl hget (fun _ => hsilent) object

theorem resolveRegistered_answers (hw : Wired classes plan) (hresolver : Resolves classes plan resolver)
    (hchain : (stack ++ [key]).IsChain (Needs classes plan)) (reg : Registration (Observed σ ι) ι) :
    Triple (fun s => s.container.findRegistration classes key = some reg ∧
        Good classes plan (stack ++ [key]) (stack ++ [key]) s)
      (resolveRegistered classes resolver reg)
      (fun object s => Good classes plan (stack ++ [key]) stack s ∧ Answered (some reg) object s)
      fun _ => Good classes plan (stack ++ [key]) (stack ++ [key]) := by
  intro s ⟨hfind, hs⟩
  have hlookup := lookup_of_find hs.shape hfind
  unfold resolveRegistered
  cases hfactory : reg.factoryOrClass with
  | none =>
      refine ⟨hs.shrink, fun found he => ?_⟩
      cases he
      have hget := registered_of_find (hw.keyed.of_plan hs.shape) hfind
      refine ⟨reg, hget, rfl, fun _ => ⟨rfl, fun h => ?_, fun h => ?_⟩⟩
      · rw [hfactory] at h
        cases h
      · rw [hfactory] at h
        cases h
  | some provider =>
      have hprovider : providerOf classes plan key = some provider :=
        (providerOf_of_lookup hlookup).trans hfactory
      have hinject := inject_clear hresolver hchain hprovider (hw.quiet key provider hprovider) s hs
      dsimp only
      cases hrun : inject classes resolver provider s with
      | error e t =>
          rw [hrun] at hinject
          rw [run_bind_error hrun]
          exact hinject
      | ok object t =>
          rw [hrun] at hinject
          obtain ⟨⟨ht, hclear⟩, hsome⟩ := hinject
          rw [run_bind_ok hrun]
          obtain ⟨now, hnow, herased, hget⟩ := ht.registered hw.keyed hlookup
          have hsamekey : now.key = reg.key := congrArg (fun r => r.key) herased
          have hsamefactory : now.factoryOrClass = reg.factoryOrClass :=
            congrArg (fun r => r.factoryOrClass) herased
          have hsamelifetime : now.lifetime = reg.lifetime := congrArg (fun r => r.lifetime) herased
          by_cases hlifetime : reg.lifetime = .singleton
          · have hunbuilt := ht.unbuilt key (by simp) now hnow (hsamelifetime.trans hlifetime)
            have hbefore := hs.unbuilt key (by simp) reg hfind hlifetime
            obtain rfl := erased_eq herased (hunbuilt.trans hbefore.symm)
            have hsilent (period : List (Event ι)) (hsince : Since t.world.events now.key .singleton period) :=
              (ht.recorded.told_since hget hlifetime hsince).silent (by rw [hfactory]; rfl) hunbuilt
            have hplanned : now.erased.factoryOrClass = some provider := hfactory
            have hne (other : Key) (hm : other ∈ stack) : lookup classes plan other ≠ some now.erased :=
              lookup_ne hchain hclear hplanned hm
            rw [if_pos hlifetime]
            refine ⟨ht.cache hw.keyed hnow hsilent hne object, fun found he => ?_⟩
            cases he
            have hgiven := hsome (hw.given key now.erased provider hlookup hlifetime hfactory)
            exact ⟨{ now with object := object }, Dict.get?_set_self _ _ _, rfl,
              fun _ => ⟨rfl, fun _ => hgiven, fun _ _ => hsilent⟩⟩
          · rw [if_neg hlifetime]
            refine ⟨ht.shrink, fun found he => ?_⟩
            cases he
            refine ⟨now, hget, hsamefactory, fun hsingleton => ?_⟩
            exact absurd (hsamelifetime.symm.trans hsingleton) hlifetime

theorem autowire_good (hw : Wired classes plan) (hresolver : Resolves classes plan resolver)
    {qualname : String} (hchain : (stack ++ [Key.type qualname]).IsChain (Needs classes plan))
    (hlookup : lookup classes plan (.type qualname) = none) :
    Triple (Good classes plan (stack ++ [.type qualname]) (stack ++ [.type qualname]))
      (autowire classes resolver qualname)
      (fun _ => Good classes plan (stack ++ [.type qualname]) stack)
      fun _ => Good classes plan (stack ++ [.type qualname]) (stack ++ [.type qualname]) := by
  have hprovider : providerOf classes plan (.type qualname) = some (classes.constructor qualname) := by
    unfold providerOf
    rw [hlookup]
  have hinject := inject_clear hresolver hchain hprovider (hw.quiet _ _ hprovider)
  refine .tryCatch (hinject.imp (fun _ => id) (fun _ _ hs => hs.1.1.shrink) fun _ _ => id) fun e => ?_
  cases e.resolution? with
  | some message => exact .throw fun _ => id
  | none => exact .throw fun _ => id

-- The stack is as it was when the work on a key is over.
theorem resolvingKey_triple {prog : Operation (Observed σ ι) ι (Option ι)}
    {pre : System (Observed σ ι) ι → Prop} {answered : Option ι → System (Observed σ ι) ι → Prop}
    (h : Triple pre prog
      (fun object s => Good classes plan (stack ++ [key]) stack s ∧ answered object s)
      fun _ => Good classes plan (stack ++ [key]) (stack ++ [key]))
    (hpop : ∀ object s, answered object s → answered object { s with
      container := { s.container with resolving := s.container.resolving.dropLast } }) :
    Triple (fun s => pre { s with
        container := { s.container with resolving := s.container.resolving ++ [key] } })
      (resolvingKey key prog) (fun object s => Good classes plan stack stack s ∧ answered object s)
      fun _ => Good classes plan stack stack := by
  have hpush : Triple (fun s => pre { s with
      container := { s.container with resolving := s.container.resolving ++ [key] } })
      (pushKey key) (fun _ => pre) fun _ => Good classes plan stack stack := .modify fun _ hs => hs
  refine .bind hpush fun _ => .bind (.tryCatch h fun e => ?_) fun object => ?_
  · exact .bind (.modify fun _ hs => hs.pop.shrink) fun _ => .throw fun _ => id
  · exact .bind (.modify fun s hs => ⟨hs.1.pop, hpop object s hs.2⟩) fun _ => .pure fun _ => id

theorem resolveWith_answers (hw : Wired classes plan) (hresolver : Resolves classes plan resolver)
    (hchain : (stack ++ [key]).IsChain (Needs classes plan))
    (found : Option (Registration (Observed σ ι) ι)) :
    Triple (fun s => s.container.findRegistration classes key = found ∧ Good classes plan stack stack s)
      (resolveWith classes resolver key)
      (fun object s => (Good classes plan stack stack s ∧ Answered found object s) ∧ key ∉ stack)
      fun _ => Good classes plan stack stack := by
  intro s ⟨hfind, hs⟩
  have hlookup := @lookup_eq (Observed σ ι) ι classes plan s.container hs.shape key
  rw [hfind] at hlookup
  rw [resolveWith, run_get_bind, hfind, hs.resolving]
  dsimp only
  -- a frame that works on the key, from the state in which the key has been pushed
  have hwork {prog : Operation (Observed σ ι) ι (Option ι)} (hnot : key ∉ stack)
      (hunbuilt : ∀ reg, found = some reg → reg.lifetime = .singleton → reg.object = none)
      (h : Triple (fun s => s.container.findRegistration classes key = found ∧
          Good classes plan (stack ++ [key]) (stack ++ [key]) s) prog
        (fun object s => Good classes plan (stack ++ [key]) stack s ∧ Answered found object s)
        fun _ => Good classes plan (stack ++ [key]) (stack ++ [key])) :
      Triple (· = s) (resolvingKey key prog)
        (fun object s => (Good classes plan stack stack s ∧ Answered found object s) ∧ key ∉ stack)
        fun _ => Good classes plan stack stack := by
    rintro _ rfl
    have hpush := hs.push fun reg hreg => hunbuilt reg (hfind.symm.trans hreg)
    have hrun := resolvingKey_triple h (fun _ _ => id) _ ⟨hfind, hpush⟩
    revert hrun
    cases resolvingKey key prog _ with
    | ok object t => exact fun hrun => ⟨hrun, hnot⟩
    | error e t => exact id
  cases found with
  | none =>
      dsimp only [Option.bind_none]
      by_cases hm : key ∈ stack
      · rw [if_pos hm]
        exact hs
      · rw [if_neg hm]
        refine hwork hm (fun _ he => nomatch he) ?_ s rfl
        cases key with
        | string name => exact .throw fun _ hs => hs.2
        | type qualname =>
            exact (autowire_good hw hresolver hchain hlookup).imp (fun _ hs => hs.2)
              (fun _ _ hs => ⟨hs, fun _ he => nomatch he⟩) fun _ _ => id
  | some reg =>
      dsimp only [Option.bind_some]
      by_cases hbuilt : Registration.isBuilt reg
      · obtain ⟨hlifetime, hsome⟩ := Bool.and_eq_true_iff.mp hbuilt
        have hsingleton : reg.lifetime = .singleton := of_decide_eq_true hlifetime
        obtain ⟨object, hobject⟩ := Option.isSome_iff_exists.mp hsome
        rw [if_pos hsingleton, hobject]
        refine ⟨⟨hs, fun given he => ?_⟩, fun hm => ?_⟩
        · cases he
          refine ⟨reg, registered_of_find (hw.keyed.of_plan hs.shape) hfind, rfl, fun _ => ?_⟩
          refine ⟨hobject, fun _ => rfl, fun _ hnot => ?_⟩
          rw [hbuilt] at hnot
          cases hnot
        · have hnone := hs.unbuilt key hm reg hfind hsingleton
          rw [hobject] at hnone
          cases hnone
      · have hunbuilt : (if reg.lifetime = .singleton then reg.object else none) = none := by
          split
          · rename_i hsingleton
            simpa [Registration.isBuilt, hsingleton] using hbuilt
          · rfl
        rw [hunbuilt]
        dsimp only
        by_cases hm : key ∈ stack
        · rw [if_pos hm]
          exact hs
        · rw [if_neg hm]
          have hregistered := resolveRegistered_answers hw hresolver hchain reg
          refine hwork hm (fun given he hsingleton => ?_) hregistered s rfl
          cases he
          rwa [if_pos hsingleton] at hunbuilt

theorem noteFrame_run (reg : Registration (Observed σ ι) ι) (object : Option ι) :
    noteFrame (some reg) object s = .ok ⟨⟩
      ((if reg.factoryOrClass.isSome && !Registration.isBuilt reg then
        s.noting (.completed reg.key object) else s).noting (.yielded reg.key object)) := by
  unfold noteFrame
  dsimp only
  split
  · rfl
  · rfl

-- The notes about a frame agree with the registration that has answered.
theorem noteFrame_good (hw : Wired classes plan) (found : Option (Registration (Observed σ ι) ι))
    (object : Option ι) :
    Triple (fun s => Good classes plan stack stack s ∧ Answered found object s)
      (noteFrame found object) (fun _ => Good classes plan stack stack)
      fun _ => Good classes plan stack stack := by
  intro s ⟨hs, hanswered⟩
  cases found with
  | none => exact hs
  | some reg =>
      obtain ⟨now, hget, hfactory, hnow⟩ := hanswered reg rfl
      have hkeyed := hw.keyed.of_plan hs.shape
      rw [noteFrame_run]
      rw [← hfactory] at hnow
      have hyield (t : System (Observed σ ι) ι) (ht : Good classes plan stack stack t)
          (hsame : t.container = s.container) :
          Good classes plan stack stack (t.noting (.yielded reg.key object)) := by
        rw [← hsame] at hkeyed hget
        refine ht.noting (ht.recorded.note hkeyed hget (.inr rfl) fun hsingleton => ?_)
        exact ⟨(hnow hsingleton).1, (hnow hsingleton).2.1, fun hc => nomatch hc⟩
      dsimp only
      by_cases hfresh : reg.factoryOrClass.isSome && !Registration.isBuilt reg
      · rw [if_pos hfresh]
        obtain ⟨hprovider, hunbuilt⟩ := Bool.and_eq_true_iff.mp hfresh
        rw [Bool.not_eq_true'] at hunbuilt
        rw [← hfactory] at hprovider
        refine hyield _ (hs.noting (hs.recorded.note hkeyed hget (.inl rfl) fun hsingleton => ?_)) rfl
        obtain ⟨hobject, hsome, hsilent⟩ := hnow hsingleton
        exact ⟨hobject, hsome, fun _ => hsilent hprovider hunbuilt⟩
      · rw [if_neg hfresh]
        exact hyield s hs rfl

theorem resolveObserved_resolves (hw : Wired classes plan) (depth : Nat) :
    Resolves classes plan (resolveObserved classes depth) := by
  induction depth with
  | zero => exact fun _ _ _ => .throw fun _ => id
  | succ depth ih =>
      intro stack key hchain
      refine .get_bind fun seen => ?_
      have hwith := resolveWith_answers hw ih hchain (seen.container.findRegistration classes key)
      have hseen (s : System (Observed σ ι) ι) (hs : s = seen) :
          s.container.findRegistration classes key = seen.container.findRegistration classes key := by
        rw [hs]
      refine .bind (hwith.pre_imp fun s hs => ⟨hseen s hs.1, hs.2⟩) fun object => ?_
      intro s ⟨hs, hnot⟩
      have hnotes := noteFrame_good hw (seen.container.findRegistration classes key) object s hs
      revert hnotes
      cases hrun : noteFrame (seen.container.findRegistration classes key) object s with
      | ok value t =>
          rw [run_bind_ok hrun]
          exact fun ht => ⟨ht, hnot⟩
      | error e t =>
          rw [run_bind_error hrun]
          exact id

end Frames

section Calls

-- What is assumed of a call: a factory or class that is registered never gives None.
def Action.NeverNone : Action σ ι → Prop
  | .registerSingleton _ provider => provider.NeverNone
  | .registerInstance _ _ | .registerTransient _ _ | .resolve _ _ => True

theorem Provider.observed_quiet (provider : Provider σ ι) : provider.observed.Quiet := by
  intro arguments events w hw
  simp only [Provider.observed]
  cases provider.call arguments w.world with
  | ok object world => exact hw
  | error e world => exact hw

theorem Provider.NeverNone.observed {provider : Provider σ ι} (h : provider.NeverNone) :
    provider.observed.NeverNone := by
  intro arguments w w' hcall
  simp only [Provider.observed] at hcall
  cases hprovider : provider.call arguments w.world with
  | ok object world =>
      rw [hprovider] at hcall
      cases hcall
      exact h arguments w.world world hprovider
  | error e world =>
      rw [hprovider] at hcall
      cases hcall

-- What every registration has been given
structure Furnished (plan : Dict Key (Registration (Observed σ ι) ι)) : Prop where
  keyed : Keyed plan
  quiet : ∀ key reg provider, plan.get? key = some reg → reg.factoryOrClass = some provider → provider.Quiet
  given : ∀ key reg provider, plan.get? key = some reg → reg.lifetime = .singleton →
    reg.factoryOrClass = some provider → provider.NeverNone

theorem Furnished.wired {plan : Dict Key (Registration (Observed σ ι) ι)} (h : Furnished plan)
    (classes : Classes σ ι) : Wired classes.observed plan where
  keyed := h.keyed
  quiet key provider hprovider := by
    unfold providerOf at hprovider
    cases hlookup : lookup classes.observed plan key with
    | some reg =>
        rw [hlookup] at hprovider
        exact h.quiet reg.key reg provider (registered_of_find h.keyed hlookup) hprovider
    | none =>
        rw [hlookup] at hprovider
        cases key with
        | string name => cases hprovider
        | type qualname =>
            cases hprovider
            exact Provider.observed_quiet _
  given key reg provider hlookup := h.given reg.key reg provider (registered_of_find h.keyed hlookup)

-- Between two calls
structure Settled (classes : Classes σ ι) (s : System (Observed σ ι) ι) : Prop where
  furnished : Furnished s.container.plan
  good : Good classes.observed s.container.plan [] [] s

namespace Settled

variable {classes : Classes σ ι} {s : System (Observed σ ι) ι}

theorem init (classes : Classes σ ι) (world : σ) : Settled classes ((System.init world).observed []) where
  furnished := ⟨fun _ _ he => (nomatch he), fun _ _ _ he => (nomatch he), fun _ _ _ he => (nomatch he)⟩
  good := ⟨rfl, rfl, fun _ hm => absurd hm List.not_mem_nil, .init⟩

theorem register (h : Settled classes s) (reg : Registration (Observed σ ι) ι)
    (hquiet : ∀ provider, reg.factoryOrClass = some provider → provider.Quiet)
    (hgiven : reg.lifetime = .singleton → ∀ provider, reg.factoryOrClass = some provider →
      provider.NeverNone) :
    Settled classes { s.noting (.registered reg.key reg.lifetime) with
      container := { s.container with registrations := s.container.registrations.set reg.key reg } } := by
  refine ⟨?_, rfl, h.good.resolving, fun _ hm => absurd hm List.not_mem_nil, ?_⟩
  · rw [plan_register]
    have hquiets : ∀ key found, (s.container.plan.set reg.key reg.erased).get? key = some found →
        ∀ provider, found.factoryOrClass = some provider → provider.Quiet :=
      Dict.forall_set (fun key found hget provider => h.furnished.quiet key found provider hget) hquiet
    have hgivens : ∀ key found, (s.container.plan.set reg.key reg.erased).get? key = some found →
        found.lifetime = .singleton → ∀ provider, found.factoryOrClass = some provider →
          provider.NeverNone :=
      Dict.forall_set (fun key found hget hsingleton provider =>
        h.furnished.given key found provider hget hsingleton) hgiven
    exact ⟨Dict.forall_set h.furnished.keyed rfl,
      fun key found provider hget => hquiets key found hget provider,
      fun key found provider hget hsingleton => hgivens key found hget hsingleton provider⟩
  · exact h.good.recorded.register reg

theorem resolve (h : Settled classes s) (depth : Nat) (key : Key) :
    Settled classes (finalState (resolveObserved classes.observed depth key) s) := by
  have hresolves := resolveObserved_resolves (h.furnished.wired classes) depth [] key
    (List.isChain_singleton key)
  have hkept : Maintains (Good classes.observed s.container.plan [] [])
      (resolveObserved classes.observed depth key) :=
    hresolves.imp (fun _ => id) (fun _ _ hs => hs.1) fun _ _ => id
  have hgood := hkept.finalState h.good
  refine ⟨?_, ?_⟩
  · rw [hgood.shape]
    exact h.furnished
  · rw [hgood.shape]
    exact hgood

theorem performObserved (h : Settled classes s) {act : Action σ ι} (hact : act.NeverNone) :
    Settled classes (System.performObserved classes s act) := by
  cases act with
  | registerInstance key object =>
      exact h.register ⟨key, .singleton, none, object⟩ (fun _ he => nomatch he) fun _ _ he => nomatch he
  | registerSingleton key provider =>
      refine h.register ⟨key, .singleton, some provider.observed, none⟩ (fun _ he => ?_) fun _ _ he => ?_
      · cases he
        exact provider.observed_quiet
      · cases he
        exact hact.observed
  | registerTransient key provider =>
      refine h.register ⟨key, .transient, some provider.observed, none⟩ (fun _ he => ?_) fun hs => nomatch hs
      cases he
      exact provider.observed_quiet
  | resolve depth key => exact h.resolve depth key

end Settled

-- Between two registrations of a key, the provider of a singleton completes once at most, and every
-- resolution and injected parameter that its registration answers gives the same object.
theorem singletons_built_once (classes : Classes σ ι) (world : σ) {acts : List (Action σ ι)}
    (hacts : ∀ act ∈ acts, act.NeverNone) {key : Key} {before period after : List (Event ι)}
    (hevents : (System.performAllObserved classes world acts).world.events =
      before ++ .registered key .singleton :: (period ++ after))
    (hperiod : ∀ event ∈ period, event.registers key = false) : BuiltOnce key period := by
  have hsettled (acts : List (Action σ ι)) (hacts : ∀ act ∈ acts, act.NeverNone)
      (s : System (Observed σ ι) ι) (hs : Settled classes s) :
      Settled classes (acts.foldl (System.performObserved classes) s) := by
    induction acts generalizing s with
    | nil => exact hs
    | cons act acts ih =>
        exact ih (fun other hm => hacts other (List.mem_cons_of_mem _ hm)) _
          (hs.performObserved (hacts act List.mem_cons_self))
  have hpast := (hsettled acts hacts _ (.init classes world)).good.recorded.past
  refine hpast (before ++ .registered key .singleton :: period) ?_ key period ⟨before, rfl, hperiod⟩
  refine ⟨after, ?_⟩
  rw [List.append_assoc]
  exact hevents.symm

namespace Sample

def engine : Provider Nat Nat where
  name := "engine"
  isClass := false
  parameters := []
  call _ count := .ok (some count) (count + 1)

def car : Provider Nat Nat where
  name := "car"
  isClass := false
  parameters := [⟨"engine", false, none, "None", none⟩]
  call _ count := .ok (some count) (count + 1)

def classes : Classes Nat Nat := ⟨fun _ _ => false, fun _ => engine⟩

def acts : List (Action Nat Nat) :=
  [.registerSingleton (.string "engine") engine, .registerTransient (.string "car") car,
    .resolve 3 (.string "car"), .resolve 3 (.string "engine")]

end Sample

-- The engine of a car, and the engine that is resolved afterwards
theorem singletons_built_once_engine : BuiltOnce (.string "engine")
    [.registered (.string "car") .transient, .completed (.string "engine") (some 0),
      .yielded (.string "engine") (some 0), .completed (.string "car") (some 1),
      .yielded (.string "car") (some 1), .yielded (.string "engine") (some 0)] := by
  have hacts : ∀ act ∈ Sample.acts, act.NeverNone := by
    intro act hm
    simp only [Sample.acts, List.mem_cons, List.not_mem_nil, or_false] at hm
    rcases hm with rfl | rfl | rfl | rfl
    · exact fun _ _ _ he => nomatch he
    · trivial
    · trivial
    · trivial
  refine @singletons_built_once Nat Nat Sample.classes 0 Sample.acts hacts _ [] _ [] rfl ?_
  decide

end Calls

end YasinCore.DI
