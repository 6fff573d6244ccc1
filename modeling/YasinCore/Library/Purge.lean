import Mathlib.Data.List.Basic

namespace YasinCore.Library

variable {ι ρ σ : Type}

-- Inputs served one after the other: the answers, and the state in the end.
def serveAll (step : ι → σ → ρ × σ) : List ι → σ → List ρ × σ
  | [], s => ([], s)
  | input :: inputs, s =>
      let (answer, t) := step input s
      let (answers, u) := serveAll step inputs t
      (answer :: answers, u)

-- Inputs that leave the state alone can be taken away: the end is the same, and so is every other answer.
theorem serveAll_purge (step : ι → σ → ρ × σ) (keep : ι → Bool)
    (h : ∀ input s, keep input = false → (step input s).2 = s) (inputs : List ι) (s : σ) :
    (serveAll step (inputs.filter keep) s).2 = (serveAll step inputs s).2 ∧
      (inputs.filter keep).zip (serveAll step (inputs.filter keep) s).1 =
        (inputs.zip (serveAll step inputs s).1).filter fun served => keep served.1 := by
  induction inputs generalizing s with
  | nil => exact ⟨rfl, rfl⟩
  | cons input inputs ih =>
      cases hk : keep input with
      | false =>
          obtain ⟨hend, hanswers⟩ := ih s
          simp [serveAll, hk, h input s hk, hend, hanswers]
      | true =>
          obtain ⟨hend, hanswers⟩ := ih (step input s).2
          simp [serveAll, hk, hend, hanswers]

theorem serveAll_congr {step step' : ι → σ → ρ × σ} {inputs : List ι}
    (h : ∀ input ∈ inputs, step input = step' input) (s : σ) :
    serveAll step inputs s = serveAll step' inputs s := by
  induction inputs generalizing s with
  | nil => rfl
  | cons input inputs ih =>
      obtain ⟨hinput, hinputs⟩ := List.forall_mem_cons.mp h
      rw [serveAll, serveAll, hinput]
      dsimp only
      rw [ih hinputs]

theorem serveAll_answers {step : ι → σ → ρ × σ} {inputs : List ι} {s : σ} {input : ι} {answer : ρ}
    (h : (input, answer) ∈ inputs.zip (serveAll step inputs s).1) : ∃ t, answer = (step input t).1 := by
  induction inputs generalizing s with
  | nil => cases h
  | cons first inputs ih =>
      rcases List.mem_cons.mp h with h | h
      · obtain ⟨rfl, rfl⟩ := Prod.mk.inj h
        exact ⟨s, rfl⟩
      · exact ih h

end YasinCore.Library
