import Mathlib.Tactic.TypeStar

namespace YasinCore.Library

variable {σ α : Type*} {step : σ → α → Option σ}

-- A run of a partial step function, with its actions in the order in which they are taken.
inductive Run (step : σ → α → Option σ) : σ → List α → σ → Prop
  | nil (s : σ) : Run step s [] s
  | cons {s t u : σ} {act : α} {acts : List α} :
      step s act = some t → Run step t acts u → Run step s (act :: acts) u

-- Every action that is taken meets the guard in the state in which it is taken.
def Meets (step : σ → α → Option σ) (guard : σ → α → Prop) : σ → List α → Prop
  | _, [] => True
  | s, act :: acts => ∀ t, step s act = some t → guard s act ∧ Meets step guard t acts

-- Every state that the actions reach, the first one included, has the property.
def Always (step : σ → α → Option σ) (inv : σ → Prop) : σ → List α → Prop
  | s, [] => inv s
  | s, act :: acts => inv s ∧ ∀ t, step s act = some t → Always step inv t acts

theorem Run.append {s t u : σ} {first second : List α} (h₁ : Run step s first t)
    (h₂ : Run step t second u) : Run step s (first ++ second) u := by
  induction h₁ with
  | nil _ => exact h₂
  | cons hs _ ih => exact .cons hs (ih h₂)

theorem Run.single {s t : σ} {act : α} (h : step s act = some t) : Run step s [act] t :=
  .cons h (.nil t)

theorem Run.of_foldlM {s t : σ} {acts : List α} (h : acts.foldlM step s = some t) :
    Run step s acts t := by
  induction acts generalizing s with
  | nil => exact Option.some.inj h ▸ .nil s
  | cons act acts ih =>
      obtain ⟨u, hu, ht⟩ := Option.bind_eq_some_iff.mp h
      exact .cons hu (ih ht)

theorem Run.of_any {s : σ} {acts : List α} {p : σ → Bool} (h : (acts.foldlM step s).any p) :
    ∃ t, Run step s acts t ∧ p t := by
  obtain ⟨t, ht, hp⟩ := (Option.any_eq_true _ _).mp h
  exact ⟨t, .of_foldlM ht, hp⟩

theorem Run.split {s u : σ} {first second : List α} (h : Run step s (first ++ second) u) :
    ∃ t, Run step s first t ∧ Run step t second u := by
  induction first generalizing s with
  | nil => exact ⟨s, .nil s, h⟩
  | cons act acts ih =>
      cases h with
      | cons hs hr =>
          obtain ⟨t, hf, hl⟩ := ih hr
          exact ⟨t, .cons hs hf, hl⟩

theorem Run.unique {s t u : σ} {acts : List α} (ht : Run step s acts t) (hu : Run step s acts u) :
    t = u := by
  induction ht with
  | nil _ => cases hu; rfl
  | cons hs _ ih =>
      cases hu with
      | cons hs' hr => exact ih (Option.some.inj (hs.symm.trans hs') ▸ hr)

theorem Meets.cons {guard : σ → α → Prop} {s t : σ} {act : α} {acts : List α}
    (ht : step s act = some t) (hg : guard s act) (hrest : Meets step guard t acts) :
    Meets step guard s (act :: acts) := by
  intro u hu
  rw [ht] at hu
  cases hu
  exact ⟨hg, hrest⟩

theorem Meets.append {guard : σ → α → Prop} {s t : σ} {first second : List α}
    (hr : Run step s first t) :
    Meets step guard s (first ++ second) ↔ Meets step guard s first ∧ Meets step guard t second := by
  induction hr with
  | nil _ => simp [Meets]
  | @cons s t u act acts hs _ ih =>
      simp only [List.cons_append, Meets, hs, Option.some.injEq, forall_eq', ih, and_assoc]

theorem Meets.imp {guard weaker : σ → α → Prop} (himp : ∀ s act, guard s act → weaker s act)
    {s : σ} {acts : List α} (h : Meets step guard s acts) : Meets step weaker s acts := by
  induction acts generalizing s with
  | nil => trivial
  | cons act acts ih => exact fun t ht => ⟨himp _ _ (h t ht).1, ih (h t ht).2⟩

theorem Meets.of_forall {guard : σ → α → Prop} {s : σ} {acts : List α}
    (h : ∀ act ∈ acts, ∀ s, guard s act) : Meets step guard s acts := by
  induction acts generalizing s with
  | nil => trivial
  | cons act acts ih =>
      refine fun t _ => ⟨h act List.mem_cons_self s, ih fun other ho => ?_⟩
      exact h other (List.mem_cons_of_mem _ ho)

-- Along steps of the allowed actions, guards that say the same of the states met are the same.
theorem Meets.congr {inv : σ → Prop} {allowed : α → Prop} {guard other : σ → α → Prop}
    (hinv : ∀ s act t, inv s → allowed act → step s act = some t → inv t)
    (hiff : ∀ s act, inv s → (guard s act ↔ other s act)) {s : σ} {acts : List α} (hs : inv s)
    (ha : ∀ act ∈ acts, allowed act) : Meets step guard s acts ↔ Meets step other s acts := by
  induction acts generalizing s with
  | nil => rfl
  | cons act acts ih =>
      refine forall_congr' fun t => imp_congr_right fun ht => and_congr (hiff s act hs) ?_
      refine ih (hinv s act t hs (ha act List.mem_cons_self) ht) fun later hl => ?_
      exact ha later (List.mem_cons_of_mem _ hl)

-- The invariant rule: what every guarded step keeps, every guarded run keeps.
theorem Run.invariant {guard : σ → α → Prop} (inv : σ → Prop)
    (hstep : ∀ s act t, inv s → guard s act → step s act = some t → inv t)
    {s u : σ} {acts : List α} (hr : Run step s acts u) (hg : Meets step guard s acts)
    (hs : inv s) : inv u := by
  induction hr with
  | nil _ => exact hs
  | cons ht _ ih =>
      obtain ⟨hact, hrest⟩ := hg _ ht
      exact ih hrest (hstep _ _ _ hs hact ht)

-- The same rule for an invariant that also speaks about the actions taken so far.
theorem Run.history_invariant {guard : σ → α → Prop} (inv : List α → σ → Prop)
    (hstep : ∀ past s act t, inv past s → guard s act → step s act = some t → inv (past ++ [act]) t)
    {s u : σ} {past acts : List α} (hr : Run step s acts u) (hg : Meets step guard s acts)
    (hs : inv past s) : inv (past ++ acts) u := by
  induction hr generalizing past with
  | nil _ => simpa using hs
  | cons ht _ ih =>
      obtain ⟨hact, hrest⟩ := hg _ ht
      have h := ih hrest (hstep _ _ _ _ hs hact ht)
      simpa only [List.append_assoc, List.singleton_append] using h

theorem always_iff {inv : σ → Prop} {s : σ} {acts : List α} : Always step inv s acts ↔
    ∀ first second t, acts = first ++ second → Run step s first t → inv t := by
  induction acts generalizing s with
  | nil =>
      constructor
      · intro h first second t he hr
        obtain ⟨rfl, -⟩ := List.append_eq_nil_iff.mp he.symm
        cases hr
        exact h
      · exact fun h => h [] [] s rfl (.nil s)
  | cons act acts ih =>
      constructor
      · rintro ⟨hs, hrest⟩ first second t he hr
        cases hr with
        | nil _ => exact hs
        | cons ht hr =>
            rw [List.cons_append] at he
            obtain ⟨rfl, hacts⟩ := List.cons.inj he
            exact ih.mp (hrest _ ht) _ _ _ hacts hr
      · intro h
        refine ⟨h [] _ s rfl (.nil s), fun t ht => ih.mpr fun first second u he hr => ?_⟩
        exact h (act :: first) second u (congrArg (act :: ·) he) (.cons ht hr)

theorem always_and {inv other : σ → Prop} {s : σ} {acts : List α} :
    Always step (fun t => inv t ∧ other t) s acts ↔ Always step inv s acts ∧ Always step other s acts := by
  simp only [always_iff]
  constructor
  · intro h
    exact ⟨fun first second t he hr => (h first second t he hr).1,
      fun first second t he hr => (h first second t he hr).2⟩
  · intro h first second t he hr
    exact ⟨h.1 first second t he hr, h.2 first second t he hr⟩

theorem Always.meets {inv : σ → Prop} {s : σ} {acts : List α} (h : Always step inv s acts) :
    Meets step (fun t _ => inv t) s acts := by
  induction acts generalizing s with
  | nil => trivial
  | cons act acts ih => exact fun t ht => ⟨h.1, ih (h.2 t ht)⟩

-- What the reached states have in common may be used to rewrite a property of all of them.
theorem Always.congr {inv other other' : σ → Prop} {s : σ} {acts : List α}
    (h : Always step inv s acts) (hiff : ∀ t, inv t → (other t ↔ other' t)) :
    Always step other s acts ↔ Always step other' s acts := by
  simp only [always_iff] at h ⊢
  constructor
  · intro ho first second t he hr
    exact (hiff t (h first second t he hr)).mp (ho first second t he hr)
  · intro ho first second t he hr
    exact (hiff t (h first second t he hr)).mpr (ho first second t he hr)

-- A guard that says exactly which steps keep the property says exactly which runs do; what else is
-- known of the states is kept as long as the property holds.
theorem always_iff_meets_of_kept {aux inv : σ → Prop} {guard : σ → α → Prop}
    (haux : ∀ s act t, aux s → inv s → step s act = some t → aux t)
    (hexact : ∀ s act t, aux s → inv s → step s act = some t → (inv t ↔ guard s act))
    {s : σ} {acts : List α} (hs : aux s) (hi : inv s) :
    Always step inv s acts ↔ Meets step guard s acts := by
  induction acts generalizing s with
  | nil => exact iff_of_true hi trivial
  | cons act acts ih =>
      constructor
      · rintro ⟨_, h⟩ t ht
        have hinv : inv t := always_iff.mp (h t ht) [] acts t rfl (.nil t)
        exact ⟨(hexact s act t hs hi ht).mp hinv, (ih (haux _ _ _ hs hi ht) hinv).mp (h t ht)⟩
      · intro h
        refine ⟨hi, fun t ht => ?_⟩
        obtain ⟨hg, hrest⟩ := h t ht
        exact (ih (haux _ _ _ hs hi ht) ((hexact s act t hs hi ht).mpr hg)).mpr hrest

theorem always_iff_meets {aux inv : σ → Prop} {guard : σ → α → Prop}
    (haux : ∀ s act t, aux s → step s act = some t → aux t)
    (hexact : ∀ s act t, aux s → inv s → step s act = some t → (inv t ↔ guard s act))
    {s : σ} {acts : List α} (hs : aux s) (hi : inv s) :
    Always step inv s acts ↔ Meets step guard s acts :=
  always_iff_meets_of_kept (fun s act t hs _ => haux s act t hs) hexact hs hi

-- The guard holds along the actions when it holds at every state from which one is taken.
theorem Meets.of_steps {guard : σ → α → Prop} {s : σ} {acts : List α}
    (h : ∀ first act second t u, acts = first ++ act :: second → Run step s first t →
      step t act = some u → guard t act) : Meets step guard s acts := by
  induction acts generalizing s with
  | nil => trivial
  | cons act acts ih =>
      intro t ht
      refine ⟨h [] act acts s t rfl (.nil s) ht, ih fun first other second v w he hv hw => ?_⟩
      exact h (act :: first) other second v w (congrArg (act :: ·) he) (.cons ht hv) hw

-- A guard that says exactly which steps stay in a preorder says exactly which runs stay in it
-- from each of their states to every later one.
theorem stays_iff_meets {rel : σ → σ → Prop} {guard : σ → α → Prop} (hrefl : ∀ s, rel s s)
    (htrans : ∀ s t u, rel s t → rel t u → rel s u)
    (hexact : ∀ s act t, step s act = some t → (rel s t ↔ guard s act)) {s : σ} {acts : List α} :
    (∀ first second third t u, acts = first ++ (second ++ third) → Run step s first t →
      Run step t second u → rel t u) ↔ Meets step guard s acts := by
  constructor
  · intro h
    refine Meets.of_steps fun first act second t u he ht hu => (hexact t act u hu).mp ?_
    exact h first [act] second t u (by simp [he]) ht (.single hu)
  · rintro h first second third t u rfl ht hu
    have hsecond := ((Meets.append hu).mp ((Meets.append ht).mp h).2).1
    refine hu.invariant (rel t) (fun v act w hv hg hw => ?_) hsecond (hrefl t)
    exact htrans t v w hv ((hexact v act w hw).mpr hg)

end YasinCore.Library
