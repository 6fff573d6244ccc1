import Mathlib.Data.List.Induction

namespace YasinCore.Library

variable {σ ω : Type*}

-- A step either says whether a property holds after it or leaves it as it was.
def Determines (step : σ → ω → σ) (holds : σ → Prop) (verdict : ω → Option Bool) : Prop :=
  ∀ s op, holds (step s op) ↔ (verdict op).elim (holds s) (· = true)

namespace Determines

variable {step : σ → ω → σ} {holds : σ → Prop} {verdict : ω → Option Bool} {s : σ} {op : ω}
  {ops : List ω}

theorem of_none (h : Determines step holds verdict) (hop : verdict op = none) :
    holds (step s op) ↔ holds s := by
  have hstep := h s op
  rwa [hop] at hstep

theorem of_some (h : Determines step holds verdict) {answer : Bool} (hop : verdict op = some answer) :
    holds (step s op) ↔ answer = true := by
  have hstep := h s op
  rwa [hop] at hstep

theorem silent (h : Determines step holds verdict) (hops : ∀ op ∈ ops, verdict op = none) :
    holds (ops.foldl step s) ↔ holds s := by
  induction ops generalizing s with
  | nil => rfl
  | cons op ops ih =>
      obtain ⟨hop, hops⟩ := List.forall_mem_cons.mp hops
      exact (ih hops).trans (h.of_none hop)

-- The last step that says something decides.
theorem foldl_iff (h : Determines step holds verdict) (hstart : ¬holds s) :
    holds (ops.foldl step s) ↔ ∃ before op after, ops = before ++ op :: after ∧
      verdict op = some true ∧ ∀ later ∈ after, verdict later = none := by
  constructor
  · intro hholds
    induction ops using List.reverseRecOn with
    | nil => exact absurd hholds hstart
    | append_singleton ops last ih =>
        rw [List.foldl_append] at hholds
        cases hlast : verdict last with
        | some answer =>
            have hanswer := (h.of_some hlast).mp hholds
            exact ⟨ops, last, [], rfl, hanswer ▸ hlast, fun _ hm => absurd hm List.not_mem_nil⟩
        | none =>
            obtain ⟨before, op, after, rfl, hop, hafter⟩ := ih ((h.of_none hlast).mp hholds)
            refine ⟨before, op, after ++ [last], by simp, hop, fun later hm => ?_⟩
            rcases List.mem_append.mp hm with hm | hm
            · exact hafter later hm
            · exact List.mem_singleton.mp hm ▸ hlast
  · rintro ⟨before, op, after, rfl, hop, hafter⟩
    rw [List.foldl_append, List.foldl_cons]
    exact (h.silent hafter).mpr ((h.of_some hop).mpr rfl)

end Determines

end YasinCore.Library
