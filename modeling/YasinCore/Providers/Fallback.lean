import YasinCore.Providers.Manager

namespace YasinCore.Providers

open YasinCore.Library

namespace ProviderManager

variable {σ : Type} {manager : ProviderManager σ} {request : AIRequest}

-- The routed provider and those of the chain that are registered, each where it comes up first
def candidates (manager : ProviderManager σ) (provider : ProviderRef) (chain : List String) :
    List ProviderRef := (provider :: chain.filterMap manager.getProvider).eraseDups

-- The providers are called in this order, and all of them raise; the last exception is kept.
inductive AllRaise (manager : ProviderManager σ) (request : AIRequest) (s : σ) :
    List ProviderRef → Option AIException → σ → Prop
  | nil : AllRaise manager request s [] none s
  | snoc {tried : List ProviderRef} {p : ProviderRef} {earlier : Option AIException} {e : AIException}
      {s' s'' : σ} : AllRaise manager request s tried earlier s' →
      (manager.providers p).generateResponse request s' = .error e s'' →
      AllRaise manager request s (tried ++ [p]) (some e) s''

-- The call ends with the response of the first provider that does not raise, after which no other one is
-- called, or with the exception of the last one.
inductive Served (manager : ProviderManager σ) (request : AIRequest) (tried : List ProviderRef)
    (w : World σ) : EStateM.Result AIException (World σ) AIResponse → Prop
  | response {before after : List ProviderRef} {p : ProviderRef} {earlier : Option AIException}
      {res : AIResponse} {s s' : σ} {w' : World σ} : tried = before ++ p :: after →
      AllRaise manager request w.rest before earlier s →
      (manager.providers p).generateResponse request s = .ok res s' → w'.rest = s' →
      w'.calls = w.calls ++ before ++ [p] → Served manager request tried w (.ok res w')
  | exception {e : AIException} {s : σ} {w' : World σ} :
      AllRaise manager request w.rest tried (some e) s → w'.rest = s →
      w'.calls = w.calls ++ tried → Served manager request tried w (.error e w')

-- The list that the manager makes is the one that is wanted.
theorem tryProviders_eq (provider : ProviderRef) (chain : List String) :
    manager.tryProviders provider chain = manager.candidates provider chain := by
  unfold tryProviders candidates
  induction chain using List.reverseRecOn with
  | nil => rfl
  | append_singleton chain name ih =>
      rw [List.foldl_append, ih, List.filterMap_append, ← List.cons_append, List.eraseDups_append,
        List.foldl_cons, List.foldl_nil]
      cases hp : manager.getProvider name with
      | none => simp [hp]
      | some p =>
          have hnew : List.filterMap manager.getProvider [name] = [p] := by simp [hp]
          dsimp only
          rw [hnew, List.removeAll]
          split_ifs with hmem
          all_goals rw [List.mem_eraseDups] at hmem
          · rw [List.filter_cons_of_neg (by simp [hmem]), List.filter_nil, List.eraseDups_nil,
              List.append_nil]
          · rw [List.filter_cons_of_pos (by simp [hmem])]
            rfl

theorem tryProviders_nodup (provider : ProviderRef) (chain : List String) :
    (manager.tryProviders provider chain).Nodup := by
  unfold tryProviders
  induction chain using List.reverseRecOn with
  | nil => exact List.nodup_singleton _
  | append_singleton chain name ih =>
      rw [List.foldl_append, List.foldl_cons, List.foldl_nil]
      cases manager.getProvider name with
      | none => exact ih
      | some p =>
          dsimp only
          split_ifs with hmem
          · exact ih
          · exact List.Nodup.append ih (List.nodup_singleton p) (by simpa using hmem)

-- Some have raised already; the rest is tried.
theorem attempt_served {tried rest : List ProviderRef} {earlier : Option AIException} {start w : World σ}
    (htried : manager.AllRaise request start.rest tried earlier w.rest)
    (hcalls : w.calls = start.calls ++ tried) (hsome : tried ++ rest ≠ []) :
    manager.Served request (tried ++ rest) start (manager.attempt request earlier rest w) := by
  induction rest generalizing tried earlier w with
  | nil =>
      rw [List.append_nil] at hsome ⊢
      generalize hs : w.rest = s at htried
      cases htried with
      | nil => exact absurd rfl hsome
      | snoc hearlier hlast => exact .exception (.snoc hearlier hlast) hs hcalls
  | cons p rest ih =>
      rw [attempt]
      dsimp only
      cases hrun : (manager.providers p).generateResponse request w.rest with
      | ok res s' =>
          refine .response rfl htried hrun rfl ?_
          rw [hcalls]
      | error e s' =>
          rw [List.append_cons] at hsome ⊢
          refine ih (htried.snoc hrun) ?_ hsome
          dsimp only
          rw [hcalls, List.append_assoc]

-- As long as they raise the loop goes on.
theorem attempt_append {tried : List ProviderRef} {earlier : Option AIException} {s s' : σ}
    (h : manager.AllRaise request s tried earlier s') (rest : List ProviderRef) {w : World σ}
    (hw : w.rest = s) : ∃ w', w'.rest = s' ∧
      manager.attempt request none (tried ++ rest) w = manager.attempt request earlier rest w' := by
  induction h generalizing rest with
  | nil => exact ⟨w, hw, rfl⟩
  | snoc _ hrun ih =>
      rename_i tried p earlier e s' s'' _
      obtain ⟨w', hw', hrest⟩ := ih (p :: rest)
      refine ⟨⟨w'.calls ++ [p], w'.recorded ++ [manager.recordFailure request p e], s''⟩, rfl, ?_⟩
      rw [List.append_assoc, List.singleton_append, hrest, attempt]
      dsimp only
      rw [hw', hrun]

-- The routed provider is tried first, then the others of the chain in order, each once, until one of them
-- responds; only if all raise there is an exception. The chain is the configured one when none is given,
-- or an empty one.
theorem fallback_in_order {provider : ProviderRef} (hroute : manager.routeRequest request = .ok provider)
    (fallbackChain : Option (List String)) (w : World σ) :
    let tried := manager.candidates provider (manager.fallbackNames fallbackChain)
    let outcome := manager.generateResponse request fallbackChain w
    tried.head? = some provider ∧ tried.Nodup ∧ manager.Served request tried w outcome ∧
      ((∃ e w', outcome = .error e w') ↔ ∃ e s, manager.AllRaise request w.rest tried (some e) s) := by
  dsimp only
  have hhead : (manager.candidates provider (manager.fallbackNames fallbackChain)).head? =
      some provider := by
    rw [candidates, List.eraseDups_cons]
    rfl
  have hrun : manager.generateResponse request fallbackChain w = manager.attempt request none
      (manager.candidates provider (manager.fallbackNames fallbackChain)) w := by
    rw [generateResponse, hroute]
    dsimp only
    rw [tryProviders_eq]
  have hsome : manager.candidates provider (manager.fallbackNames fallbackChain) ≠ [] := by
    intro hempty
    rw [hempty] at hhead
    cases hhead
  have hstart : manager.AllRaise request w.rest [] none w.rest := .nil
  have hserved : manager.Served request
      (manager.candidates provider (manager.fallbackNames fallbackChain)) w
      (manager.attempt request none
        (manager.candidates provider (manager.fallbackNames fallbackChain)) w) :=
    attempt_served hstart (List.append_nil w.calls).symm hsome
  refine ⟨hhead, tryProviders_eq provider _ ▸ tryProviders_nodup provider _, hrun ▸ hserved, ?_⟩
  rw [hrun]
  constructor
  · rintro ⟨e, w', herror⟩
    rw [herror] at hserved
    cases hserved with
    | exception hraise _ _ => exact ⟨e, _, hraise⟩
  · rintro ⟨e, s, hraise⟩
    obtain ⟨w', -, hend⟩ := attempt_append hraise [] rfl
    rw [List.append_nil] at hend
    exact ⟨e, w', hend⟩

-- A provider that always raises, and one that always responds
def failing : Provider Unit where
  name := "failing"
  generateResponse _ := throw (aiProviderError "Endpoint unreachable")

def mock : Provider Unit where
  name := "mock"
  generateResponse _ := pure ⟨"mock response", "mock-model", .empty⟩

def twoProviders : ProviderManager Unit where
  registry := (Dict.empty.set "failing" 0).set "mock" 1
  providers ref := if ref = 0 then failing else mock
  config := some ⟨none, some ["mock"]⟩

def toFailing : AIRequest := ⟨none, Dict.empty.set "provider" "failing"⟩

theorem fallback_in_order_two : twoProviders.Served toFailing [0, 1] ⟨[], [], ()⟩
    (twoProviders.generateResponse toFailing (some ["failing", "mock", "unknown", "mock"]) ⟨[], [], ()⟩) :=
  (@fallback_in_order Unit twoProviders toFailing 0 rfl (some ["failing", "mock", "unknown", "mock"])
    ⟨[], [], ()⟩).2.2.1

-- A chain that is given but empty does not keep the manager from falling back.
theorem empty_chain_falls_back : twoProviders.routeRequest toFailing = .ok 0 ∧
    ¬twoProviders.Served toFailing (twoProviders.candidates 0 []) ⟨[], [], ()⟩
      (twoProviders.generateResponse toFailing (some []) ⟨[], [], ()⟩) := by
  refine ⟨rfl, fun h => ?_⟩
  have hresponse : twoProviders.generateResponse toFailing (some []) ⟨[], [], ()⟩ =
      .ok ⟨"mock response", "mock-model", .empty⟩
        ⟨[0, 1], [twoProviders.recordFailure toFailing 0 (aiProviderError "Endpoint unreachable"),
          twoProviders.recordSuccess toFailing 1 ⟨"mock response", "mock-model", .empty⟩], ()⟩ := rfl
  rw [hresponse] at h
  cases h with
  | response htried _ _ _ hcalls =>
      have hone : (twoProviders.candidates 0 []).length = 1 := rfl
      have hcount := congrArg List.length hcalls
      rw [htried, List.length_append, List.length_cons] at hone
      simp only [List.length_append, List.length_cons, List.length_nil] at hcount
      omega

end ProviderManager

end YasinCore.Providers
