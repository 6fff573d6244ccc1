import Mathlib.Tactic.TypeStar
import YasinCore.Library.Hoare

namespace YasinCore.Library

variable {ε σ σ' α β : Type}

-- What the calls of an object return or raise, one after the other.
def outcomes (call : α → EStateM ε σ β) : List α → σ → List (Except ε β)
  | [], _ => []
  | act :: acts, s =>
      match call act s with
      | .ok value t => .ok value :: outcomes call acts t
      | .error e t => .error e :: outcomes call acts t

-- Both results are the same value or the same exception, and the states behind them are related.
def Matching (rel : σ → σ' → Prop) :
    EStateM.Result ε σ β → EStateM.Result ε σ' β → Prop
  | .ok value t, .ok value' t' => value = value' ∧ rel t t'
  | .error e t, .error e' t' => e = e' ∧ rel t t'
  | _, _ => False

-- The relation may be replaced by what it says about the state in which the second program ends.
theorem Matching.imp {rel rel' : σ → σ' → Prop} {prog : EStateM ε σ β} {prog' : EStateM ε σ' β}
    {s : σ} {s' : σ'} (h : Matching rel (prog s) (prog' s'))
    (himp : ∀ t, rel t (finalState prog' s') → rel' t (finalState prog' s')) :
    Matching rel' (prog s) (prog' s') := by
  revert h himp
  unfold finalState
  cases prog s with
  | ok value t =>
      cases prog' s' with
      | ok value' t' => exact fun h himp => ⟨h.1, himp t h.2⟩
      | error e' t' => exact fun h _ => h.elim
  | error e t =>
      cases prog' s' with
      | ok value' t' => exact fun h _ => h.elim
      | error e' t' => exact fun h himp => ⟨h.1, himp t h.2⟩

-- Programs that go on from matching results in matching ways.
theorem Matching.bind {γ : Type} {rel rel' : σ → σ' → Prop} {prog : EStateM ε σ β}
    {prog' : EStateM ε σ' β} {next : β → EStateM ε σ γ} {next' : β → EStateM ε σ' γ} {s : σ} {s' : σ'}
    (h : Matching rel (prog s) (prog' s'))
    (hraised : ∀ t t', rel t t' → rel' t t')
    (hnext : ∀ value t t', rel t t' → Matching rel' (next value t) (next' value t')) :
    Matching rel' ((prog >>= next) s) ((prog' >>= next') s') := by
  cases hp : prog s with
  | ok value t =>
      cases hp' : prog' s' with
      | ok value' t' =>
          rw [hp, hp'] at h
          obtain ⟨rfl, ht⟩ := h
          rw [run_bind_ok hp, run_bind_ok hp']
          exact hnext value t t' ht
      | error e' t' =>
          rw [hp, hp'] at h
          exact h.elim
  | error e t =>
      cases hp' : prog' s' with
      | ok value' t' =>
          rw [hp, hp'] at h
          exact h.elim
      | error e' t' =>
          rw [hp, hp'] at h
          rw [run_bind_error hp, run_bind_error hp']
          exact ⟨h.1, hraised t t' h.2⟩

-- The simulation rule. The relation may speak about the calls that are still to come.
theorem outcomes_eq {call : α → EStateM ε σ β} {call' : α → EStateM ε σ' β}
    (rel : List α → σ → σ' → Prop)
    (hstep : ∀ act acts s s', rel (act :: acts) s s' → Matching (rel acts) (call act s) (call' act s'))
    {acts : List α} {s : σ} {s' : σ'} (h : rel acts s s') :
    outcomes call acts s = outcomes call' acts s' := by
  induction acts generalizing s s' with
  | nil => rfl
  | cons act acts ih =>
      have hm := hstep act acts s s' h
      unfold outcomes
      cases hc : call act s with
      | ok value t =>
          cases hc' : call' act s' with
          | ok value' t' =>
              rw [hc, hc'] at hm
              dsimp only
              rw [hm.1, ih hm.2]
          | error e' t' =>
              rw [hc, hc'] at hm
              exact hm.elim
      | error e t =>
          cases hc' : call' act s' with
          | ok value' t' =>
              rw [hc, hc'] at hm
              exact hm.elim
          | error e' t' =>
              rw [hc, hc'] at hm
              dsimp only
              rw [hm.1, ih hm.2]

-- A triple about one call that names the other's result gives the matching of the two.
theorem Triple.matching {rel : σ → σ' → Prop} {pre : σ → Prop} {prog : EStateM ε σ β}
    {result : EStateM.Result ε σ' β}
    (h : Triple pre prog (fun value t => ∃ t', result = .ok value t' ∧ rel t t')
      fun e t => ∃ t', result = .error e t' ∧ rel t t') {s : σ} (hs : pre s) :
    Matching rel (prog s) result := by
  have hr := h s hs
  revert hr
  cases prog s with
  | ok value t =>
      rintro ⟨t', rfl, ht⟩
      exact ⟨rfl, ht⟩
  | error e t =>
      rintro ⟨t', rfl, ht⟩
      exact ⟨rfl, ht⟩

end YasinCore.Library
