import Mathlib.Data.List.Induction

namespace YasinCore.Library

variable {σ ω α : Type*} {step : σ → ω → σ}

-- What the steps of a run contribute, one after the other.
def along (step : σ → ω → σ) (part : σ → ω → List α) : σ → List ω → List α
  | _, [] => []
  | s, op :: ops => part s op ++ along step part (step s op) ops

-- What enters a queue in a step goes to its end, and what leaves it is taken from its front.
def Accounts (step : σ → ω → σ) (queue : σ → List α) (enters leaves : σ → ω → List α) : Prop :=
  ∀ s op, queue s ++ enters s op = leaves s op ++ queue (step s op)

-- Nothing is lost over a run, nothing doubled and nothing overtaken.
theorem Accounts.run {queue : σ → List α} {enters leaves : σ → ω → List α}
    (h : Accounts step queue enters leaves) (s : σ) (ops : List ω) :
    queue s ++ along step enters s ops = along step leaves s ops ++ queue (ops.foldl step s) := by
  induction ops generalizing s with
  | nil => simp [along]
  | cons op ops ih =>
      calc queue s ++ along step enters s (op :: ops)
          = (queue s ++ enters s op) ++ along step enters (step s op) ops := by simp [along]
        _ = leaves s op ++ (queue (step s op) ++ along step enters (step s op) ops) := by
            rw [h s op, List.append_assoc]
        _ = along step leaves s (op :: ops) ++ queue (ops.foldl step (step s op)) := by
            rw [ih, along, List.append_assoc]

-- A register that a step overwrites or leaves alone holds what was written last.
theorem along_getLast? (register : σ → Option α) {writes : σ → ω → Option α}
    (h : ∀ s op, register (step s op) = (writes s op).or (register s)) (s : σ) (ops : List ω) :
    register (ops.foldl step s) =
      (along step (fun s op => (writes s op).toList) s ops).getLast?.or (register s) := by
  induction ops generalizing s with
  | nil => simp [along]
  | cons op ops ih =>
      rw [List.foldl_cons, ih, h, along, List.getLast?_append, Option.or_assoc]
      cases writes s op <;> rfl

end YasinCore.Library
