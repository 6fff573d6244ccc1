import YasinCore.DI.Nested

namespace YasinCore.DI

open YasinCore.Library
open Operation Relation

variable {σ ι : Type}

-- The resolution comes to a key that is on the stack and has no object.
def RunsIntoCycle (classes : Classes σ ι) (depth : Nat) (key : Key) (s : System σ ι) : Prop :=
  ∃ depth' key' s', Reaches classes depth key s (depth' + 1) key' s' ∧ cached? classes s' key' = none ∧
    key' ∈ s'.container.resolving

section Surfaces

variable {classes : Classes σ ι} {plan : Dict Key (Registration σ ι)} {stack : List Key} {depth : Nat}
  {key : Key} {s : System σ ι}

theorem cycle_of_repeated (hchain : (stack ++ [key]).IsChain (Needs classes plan)) (hm : key ∈ stack) :
    TransGen (Needs classes plan) key key := by
  have htrans : (stack ++ [key]).IsChain (TransGen (Needs classes plan)) := hchain.imp fun _ _ => .single
  have hpairs := List.isChain_iff_pairwise.mp htrans
  exact (List.pairwise_append.mp hpairs).2.2 key hm key (by simp)

-- There is a cycle, indeed.
theorem RunsIntoCycle.needs (h : RunsIntoCycle classes depth key s) (hidle : Idle s) :
    ∃ key, TransGen (Needs classes s.container.plan) key key := by
  obtain ⟨depth', key', s', hreaches, -, hm⟩ := h
  obtain ⟨stack, hs', hchain⟩ := hreaches.clean hidle.keyed (hidle.clean classes)
    (List.isChain_singleton key)
  exact ⟨key', cycle_of_repeated hchain (hs'.resolving ▸ hm)⟩

-- A registered key raises what the key on the stack raises, a class that is not registered raises its
-- own exception.
theorem RunsIntoCycle.raises (h : RunsIntoCycle classes depth key s) (hidle : Idle s) : ∃ message t,
    (s.container.has classes key → resolve classes depth key s = .error (.circularDependency message) t) ∧
    (s.container.has classes key = false →
      resolve classes depth key s = .error (.dependencyResolution message) t) := by
  obtain ⟨depth', key', s', hreaches, hcached, hm⟩ := h
  have hs := hidle.clean classes
  have hchain : ([] ++ [key]).IsChain (Needs classes s.container.plan) := List.isChain_singleton key
  have hblocked := @resolveWith_blocked σ ι classes (resolve classes depth') s' key' hcached hm
  rw [has_eq rfl]
  cases hreaches with
  | refl =>
      rw [hidle.resolving] at hm
      cases hm
  | @ask depth depth' key other key' s t s' hasks hreaches =>
      obtain ⟨ht, hnext, hlookup⟩ := hasks.clean hidle.keyed hs hchain
      obtain ⟨e, u, hother, -, heq⟩ := hreaches.error hidle.keyed ht hnext hblocked
      obtain rfl := heq hlookup
      obtain ⟨e, hrun, hregistered, hunregistered⟩ := hasks.error hidle.keyed hs hchain hother
      cases hfound : lookup classes s.container.plan key with
      | some reg =>
          rw [hfound] at hregistered
          obtain rfl := hregistered rfl
          exact ⟨_, _, fun _ => hrun, fun hnot => by cases hnot⟩
      | none =>
          obtain ⟨message, rfl⟩ := hunregistered hfound rfl
          exact ⟨message, _, fun hsome => (by cases hsome), fun _ => hrun⟩

-- A cycle surfaces as a circular dependency when the key is registered, and only then.
theorem cycle_surfaces_iff (classes : Classes σ ι) (world : σ) (acts : List (Action σ ι)) {depth : Nat}
    {key : Key} (h : RunsIntoCycle classes depth key (System.performAll classes world acts)) :
    (∃ message t, resolve classes depth key (System.performAll classes world acts) =
      .error (.circularDependency message) t) ↔
    (System.performAll classes world acts).container.has classes key := by
  obtain ⟨message, t, hregistered, hunregistered⟩ := h.raises (performAll_idle classes world acts)
  cases hhas : (System.performAll classes world acts).container.has classes key with
  | true => exact ⟨fun _ => rfl, fun _ => ⟨message, t, hregistered hhas⟩⟩
  | false =>
      refine ⟨fun ⟨message', t', hrun⟩ => ?_, fun he => by cases he⟩
      rw [hunregistered hhas] at hrun
      cases hrun

end Surfaces

namespace Cyclic

def serviceA : Provider Nat Nat where
  name := "ServiceA"
  isClass := true
  parameters := [⟨"self", false, none, "None", none⟩, ⟨"b", false, some "ServiceB", "ServiceB", none⟩]
  call _ count := .ok (some count) (count + 1)

def serviceB : Provider Nat Nat where
  name := "ServiceB"
  isClass := true
  parameters := [⟨"self", false, none, "None", none⟩, ⟨"a", false, some "ServiceA", "ServiceA", none⟩]
  call _ count := .ok (some count) (count + 1)

-- A class that is not registered, and needs one of the two
def controller : Provider Nat Nat where
  name := "Controller"
  isClass := true
  parameters := [⟨"self", false, none, "None", none⟩, ⟨"a", false, some "ServiceA", "ServiceA", none⟩]
  call _ count := .ok (some count) (count + 1)

def classes : Classes Nat Nat where
  issubclass sub sup := sub == sup
  constructor qualname :=
    if qualname = "ServiceA" then serviceA else if qualname = "ServiceB" then serviceB else controller

def acts : List (Action Nat Nat) :=
  [.registerTransient (.type "ServiceA") serviceA, .registerTransient (.type "ServiceB") serviceB]

-- The container in the middle of a call
def stacked (stack : List Key) : System Nat Nat :=
  { System.performAll classes 0 acts with
    container := { (System.performAll classes 0 acts).container with resolving := stack } }

-- ServiceA asks for ServiceB, which asks for ServiceA.
theorem serviceA_reaches {stack : List Key} (ha : .type "ServiceA" ∉ stack)
    (hb : .type "ServiceB" ∉ stack) :
    Reaches classes 3 (.type "ServiceA") (stacked stack) 1 (.type "ServiceA")
      (stacked (stack ++ [.type "ServiceA"] ++ [.type "ServiceB"])) := by
  have hfirst : Asks classes 2 (.type "ServiceA") (stacked stack) (.type "ServiceB")
      (stacked (stack ++ [.type "ServiceA"])) :=
    .intro ⟨rfl, ha⟩ rfl (List.nil_append _).symm rfl rfl
  have hnew : (.type "ServiceB" : Key) ∉ stack ++ [.type "ServiceA"] := by simp [hb]
  have hsecond : Asks classes 1 (.type "ServiceB") (stacked (stack ++ [.type "ServiceA"]))
      (.type "ServiceA") (stacked (stack ++ [.type "ServiceA"] ++ [.type "ServiceB"])) :=
    .intro ⟨rfl, hnew⟩ rfl (List.nil_append _).symm rfl rfl
  exact .ask hfirst (.ask hsecond .refl)

end Cyclic

theorem cycle_surfaces_iff_registered : ∃ message t,
    resolve Cyclic.classes 3 (.type "ServiceA") (System.performAll Cyclic.classes 0 Cyclic.acts) =
      .error (.circularDependency message) t := by
  have hcycle : RunsIntoCycle Cyclic.classes 3 (.type "ServiceA")
      (System.performAll Cyclic.classes 0 Cyclic.acts) :=
    ⟨_, _, _, Cyclic.serviceA_reaches List.not_mem_nil List.not_mem_nil, rfl, by decide⟩
  exact (cycle_surfaces_iff Cyclic.classes 0 Cyclic.acts hcycle).mpr rfl

-- The controller runs into the cycle as well, and raises the supertype.
theorem unregistered_hides_cycle :
    RunsIntoCycle Cyclic.classes 4 (.type "Controller")
      (System.performAll Cyclic.classes 0 Cyclic.acts) ∧
    ∀ message t, resolve Cyclic.classes 4 (.type "Controller")
      (System.performAll Cyclic.classes 0 Cyclic.acts) ≠ .error (.circularDependency message) t := by
  have hasks : Asks Cyclic.classes 3 (.type "Controller")
      (System.performAll Cyclic.classes 0 Cyclic.acts) (.type "ServiceA")
      (Cyclic.stacked [.type "Controller"]) :=
    .intro ⟨rfl, by decide⟩ rfl (List.nil_append _).symm rfl rfl
  have hcycle : RunsIntoCycle Cyclic.classes 4 (.type "Controller")
      (System.performAll Cyclic.classes 0 Cyclic.acts) :=
    ⟨_, _, _, .ask hasks (Cyclic.serviceA_reaches (by decide) (by decide)), rfl, by decide⟩
  obtain ⟨message, t, -, hunregistered⟩ := hcycle.raises (performAll_idle Cyclic.classes 0 Cyclic.acts)
  refine ⟨hcycle, fun message' t' hrun => ?_⟩
  rw [hunregistered rfl] at hrun
  cases hrun

end YasinCore.DI
