import Mathlib.Tactic.TypeStar

namespace YasinCore.Library

variable {ε σ α β : Type}

-- Started in a state with the precondition, the program ends in one with the postcondition when it
-- returns, and in one with the other condition when it raises. The state survives an exception.
def Triple (pre : σ → Prop) (prog : EStateM ε σ α) (post : α → σ → Prop) (raised : ε → σ → Prop) :
    Prop :=
  ∀ s, pre s → match prog s with
    | .ok value t => post value t
    | .error e t => raised e t

-- The program keeps a property of the state, whether it returns or raises.
def Maintains (inv : σ → Prop) (prog : EStateM ε σ α) : Prop :=
  Triple inv prog (fun _ => inv) fun _ => inv

section Runs

-- Reading and writing the state are what they are for.
theorem run_get_bind (next : σ → EStateM ε σ α) (s : σ) : (get >>= next) s = next s s := rfl

theorem run_modify_bind (f : σ → σ) (next : PUnit → EStateM ε σ α) (s : σ) :
    (modify f >>= next) s = next ⟨⟩ (f s) := rfl

-- Whatever comes after a call that returned, or that raised.
theorem run_bind_ok {prog : EStateM ε σ α} {s t : σ} {value : α} (h : prog s = .ok value t)
    (next : α → EStateM ε σ β) : (prog >>= next) s = next value t := by
  show EStateM.bind prog next s = next value t
  unfold EStateM.bind
  rw [h]

theorem run_bind_error {prog : EStateM ε σ α} {s t : σ} {e : ε} (h : prog s = .error e t)
    (next : α → EStateM ε σ β) : (prog >>= next) s = .error e t := by
  show EStateM.bind prog next s = .error e t
  unfold EStateM.bind
  rw [h]

theorem run_bind_congr {prog prog' : EStateM ε σ α} {s t : σ} (h : prog s = prog' t)
    (next : α → EStateM ε σ β) : (prog >>= next) s = (prog' >>= next) t := by
  show EStateM.bind prog next s = EStateM.bind prog' next t
  unfold EStateM.bind
  rw [h]

theorem run_tryCatch_ok {prog : EStateM ε σ α} {s t : σ} {value : α} (h : prog s = .ok value t)
    (handler : ε → EStateM ε σ α) : tryCatch prog handler s = .ok value t := by
  show EStateM.tryCatch prog handler s = .ok value t
  unfold EStateM.tryCatch
  rw [h]

theorem run_tryCatch_error {prog : EStateM ε σ α} {s t : σ} {e : ε} (h : prog s = .error e t)
    (handler : ε → EStateM ε σ α) : tryCatch prog handler s = handler e t := by
  show EStateM.tryCatch prog handler s = handler e t
  unfold EStateM.tryCatch
  rw [h]
  rfl

end Runs

section Rules

variable {pre pre' inv : σ → Prop} {post post' : α → σ → Prop} {raised raised' : ε → σ → Prop}
  {prog : EStateM ε σ α}

theorem Triple.imp (h : Triple pre prog post raised) (hpre : ∀ s, pre' s → pre s)
    (hpost : ∀ value s, post value s → post' value s) (hraised : ∀ e s, raised e s → raised' e s) :
    Triple pre' prog post' raised' := by
  intro s hs
  have hr := h s (hpre s hs)
  revert hr
  cases prog s with
  | ok value t => exact hpost value t
  | error e t => exact hraised e t

theorem Triple.pre_imp (h : Triple pre prog post raised) (hpre : ∀ s, pre' s → pre s) :
    Triple pre' prog post raised := h.imp hpre (fun _ _ => id) fun _ _ => id

-- What never raises meets any condition on exceptions.
theorem Triple.of_total (h : Triple pre prog post fun _ _ => False) : Triple pre prog post raised :=
  h.imp (fun _ => id) (fun _ _ => id) fun _ _ => False.elim

-- A part of the precondition that does not speak about the state is a hypothesis.
theorem Triple.of_fact {fact : Prop} (h : fact → Triple pre prog post raised) :
    Triple (fun s => fact ∧ pre s) prog post raised := fun s hs => h hs.1 s hs.2

theorem Triple.and {post₂ : α → σ → Prop} {raised₂ : ε → σ → Prop} {pre₂ : σ → Prop}
    (h : Triple pre prog post raised) (h₂ : Triple pre₂ prog post₂ raised₂) :
    Triple (fun s => pre s ∧ pre₂ s) prog (fun value s => post value s ∧ post₂ value s)
      fun e s => raised e s ∧ raised₂ e s := by
  intro s ⟨hs, hs₂⟩
  have hr := h s hs
  have hr₂ := h₂ s hs₂
  revert hr hr₂
  cases prog s with
  | ok value t => exact fun hr hr₂ => ⟨hr, hr₂⟩
  | error e t => exact fun hr hr₂ => ⟨hr, hr₂⟩

theorem Triple.trivial : Triple pre prog (fun _ _ => True) fun _ _ => True := by
  intro s _
  cases prog s with
  | ok _ _ => exact True.intro
  | error _ _ => exact True.intro

theorem Triple.pure {value : α} (h : ∀ s, pre s → post value s) :
    Triple pre (pure value : EStateM ε σ α) post raised := h

theorem Triple.throw {e : ε} (h : ∀ s, pre s → raised e s) :
    Triple pre (throw e : EStateM ε σ α) post raised := h

theorem Triple.get {post : σ → σ → Prop} (h : ∀ s, pre s → post s s) :
    Triple pre (get : EStateM ε σ σ) post raised := h

theorem Triple.modify {f : σ → σ} {post : PUnit → σ → Prop} (h : ∀ s, pre s → post ⟨⟩ (f s)) :
    Triple pre (modify f : EStateM ε σ PUnit) post raised := h

theorem Triple.bind {next : α → EStateM ε σ β} {mid : α → σ → Prop} {post : β → σ → Prop}
    (h : Triple pre prog mid raised) (hnext : ∀ value, Triple (mid value) (next value) post raised) :
    Triple pre (prog >>= next) post raised := by
  intro s hs
  have hr := h s hs
  revert hr
  change _ → match EStateM.bind prog next s with | .ok value t => _ | .error e t => _
  unfold EStateM.bind
  cases prog s with
  | ok value t => exact hnext value t
  | error e t => exact fun hr => hr

theorem Triple.get_bind {next : σ → EStateM ε σ β} {post : β → σ → Prop}
    (h : ∀ seen, Triple (fun s => s = seen ∧ pre s) (next seen) post raised) :
    Triple pre (MonadState.get >>= next) post raised :=
  Triple.bind (Triple.get fun _ hs => ⟨rfl, hs⟩) h

-- From one known state the program reads that state.
theorem Triple.get_bind_eq {seen : σ} {next : σ → EStateM ε σ β} {post : β → σ → Prop}
    (h : Triple (· = seen) (next seen) post raised) :
    Triple (· = seen) (MonadState.get >>= next) post raised := by
  rintro s rfl
  exact h s rfl

-- A triple holds when it does from each state with the precondition.
theorem Triple.of_state (h : ∀ s, pre s → Triple (· = s) prog post raised) :
    Triple pre prog post raised := fun s hs => h s hs s rfl

theorem Triple.tryCatch {handler : ε → EStateM ε σ α} {mid : ε → σ → Prop}
    (h : Triple pre prog post mid) (hcatch : ∀ e, Triple (mid e) (handler e) post raised) :
    Triple pre (tryCatch prog handler) post raised := by
  intro s hs
  have hr := h s hs
  revert hr
  change _ → match EStateM.tryCatch prog handler s with | .ok value t => _ | .error e t => _
  unfold EStateM.tryCatch
  cases hp : prog s with
  | ok value t => exact fun hr => hr
  | error e t => exact hcatch e t

-- A handler that is never entered.
theorem Triple.tryCatch_of_total {handler : ε → EStateM ε σ α}
    (h : Triple pre prog post fun _ _ => False) :
    Triple pre (MonadExcept.tryCatch prog handler) post raised :=
  h.tryCatch fun _ _ hs => hs.elim

theorem Triple.ite {c : Prop} [Decidable c] {other : EStateM ε σ α}
    (hthen : c → Triple pre prog post raised) (helse : ¬c → Triple pre other post raised) :
    Triple pre (if c then prog else other) post raised := by
  split
  · exact hthen ‹c›
  · exact helse ‹¬c›

-- A loop, by an invariant that knows which elements have had their turn.
theorem Triple.forM {body : α → EStateM ε σ PUnit} (inv : List α → σ → Prop) {items : List α}
    (h : ∀ done item rest, items = done ++ item :: rest →
      Triple (inv done) (body item) (fun _ => inv (done ++ [item])) raised) :
    Triple (inv []) (items.forM body) (fun _ => inv items) raised := by
  suffices hrest : ∀ rest done, items = done ++ rest →
      Triple (inv done) (rest.forM body) (fun _ => inv items) raised from hrest items [] rfl
  intro rest
  induction rest with
  | nil =>
      intro done he
      rw [he, List.append_nil]
      exact .pure fun _ => id
  | cons item rest ih =>
      intro done he
      exact .bind (h done item rest he) fun _ => ih (done ++ [item]) (by rw [he]; simp)

-- A loop over two lists, one after the other.
theorem Triple.forM_append {body : α → EStateM ε σ PUnit} {mid : σ → Prop} {post : PUnit → σ → Prop}
    {items later : List α} (h : Triple pre (items.forM body) (fun _ => mid) raised)
    (hlater : Triple mid (later.forM body) post raised) :
    Triple pre ((items ++ later).forM body) post raised := by
  have happend : (items ++ later).forM body = (items.forM body >>= fun _ => later.forM body) :=
    List.forM_append
  rw [happend]
  exact .bind h fun _ => hlater

end Rules

-- Whatever a computation without a state raises is allowed.
def OnlyRaises (allowed : ε → Prop) (comp : Except ε α) : Prop := ∀ e, comp = .error e → allowed e

section OnlyRaises

variable {allowed : ε → Prop} {comp : Except ε α}

theorem OnlyRaises.pure {value : α} : OnlyRaises allowed (pure value : Except ε α) := nofun

theorem OnlyRaises.error {e : ε} (h : allowed e) : OnlyRaises allowed (.error e : Except ε α) := by
  rintro _ ⟨⟩
  exact h

theorem OnlyRaises.bind {next : α → Except ε β} (h : OnlyRaises allowed comp)
    (hnext : ∀ value, OnlyRaises allowed (next value)) : OnlyRaises allowed (comp >>= next) := by
  intro e he
  cases hc : comp with
  | error e' =>
      rw [hc] at he
      obtain rfl := Except.error.inj he
      exact h _ hc
  | ok value =>
      rw [hc] at he
      exact hnext value e he

theorem OnlyRaises.mapM {call : α → Except ε β} {items : List α}
    (h : ∀ item, OnlyRaises allowed (call item)) : OnlyRaises allowed (items.mapM call) := by
  induction items with
  | nil => exact .pure
  | cons item rest ih =>
      rw [List.mapM_cons]
      exact .bind (h item) fun _ => .bind ih fun _ => .pure

end OnlyRaises

section Maintains

variable {inv : σ → Prop} {prog : EStateM ε σ α}

theorem Maintains.pure {value : α} : Maintains inv (pure value : EStateM ε σ α) :=
  Triple.pure fun _ => id

theorem Maintains.throw {e : ε} : Maintains inv (throw e : EStateM ε σ α) :=
  Triple.throw fun _ => id

theorem Maintains.get : Maintains inv (get : EStateM ε σ σ) := Triple.get fun _ => id

theorem Maintains.modify {f : σ → σ} (h : ∀ s, inv s → inv (f s)) :
    Maintains inv (modify f : EStateM ε σ PUnit) := Triple.modify h

theorem Maintains.bind {next : α → EStateM ε σ β} (h : Maintains inv prog)
    (hnext : ∀ value, Maintains inv (next value)) : Maintains inv (prog >>= next) :=
  Triple.bind h hnext

theorem Maintains.tryCatch {handler : ε → EStateM ε σ α} (h : Maintains inv prog)
    (hcatch : ∀ e, Maintains inv (handler e)) : Maintains inv (tryCatch prog handler) :=
  Triple.tryCatch h hcatch

theorem Maintains.ite {c : Prop} [Decidable c] {other : EStateM ε σ α} (hthen : c → Maintains inv prog)
    (helse : ¬c → Maintains inv other) : Maintains inv (if c then prog else other) :=
  Triple.ite hthen helse

theorem Maintains.forM {body : α → EStateM ε σ PUnit} {items : List α}
    (h : ∀ item ∈ items, Maintains inv (body item)) : Maintains inv (items.forM body) :=
  Triple.forM (fun _ => inv) fun done item rest he => h item (by rw [he]; simp)

-- The state in which a program ends, after a return or an exception alike.
def finalState (prog : EStateM ε σ α) (s : σ) : σ :=
  match prog s with
  | .ok _ t => t
  | .error _ t => t

-- What a program returns, unless it raises.
def returned (prog : EStateM ε σ α) (s : σ) : Option α :=
  match prog s with
  | .ok value _ => some value
  | .error _ _ => none

-- What is returned in the end makes no difference to the state.
theorem finalState_bind_pure (prog : EStateM ε σ α) (value : β) (s : σ) :
    finalState (prog >>= fun _ => (pure value : EStateM ε σ β)) s = finalState prog s := by
  unfold finalState
  cases h : prog s with
  | ok found t =>
      rw [run_bind_ok h]
      rfl
  | error e t => rw [run_bind_error h]

theorem returned_bind_pure (prog : EStateM ε σ α) (value : β) (s : σ) :
    returned (prog >>= fun _ => (pure value : EStateM ε σ β)) s = (returned prog s).map fun _ => value := by
  unfold returned
  cases h : prog s with
  | ok found t =>
      rw [run_bind_ok h]
      rfl
  | error e t =>
      rw [run_bind_error h]
      rfl

-- A triple, as a statement about what comes out of one state.
theorem Triple.outcome {pre : σ → Prop} {post : α → σ → Prop} {raised : ε → σ → Prop}
    (h : Triple pre prog post raised) {s : σ} (hs : pre s) :
    (∃ value, returned prog s = some value ∧ post value (finalState prog s)) ∨
      returned prog s = none ∧ ∃ e, raised e (finalState prog s) := by
  have hr := h s hs
  unfold returned Library.finalState
  revert hr
  cases prog s with
  | ok value t => exact fun hr => .inl ⟨value, rfl, hr⟩
  | error e t => exact fun hr => .inr ⟨rfl, e, hr⟩

theorem Maintains.finalState (h : Maintains inv prog) {s : σ} (hs : inv s) :
    inv (finalState prog s) := by
  have hr := h s hs
  unfold Library.finalState
  revert hr
  cases prog s with
  | ok _ _ => exact id
  | error _ _ => exact id

end Maintains

end YasinCore.Library
