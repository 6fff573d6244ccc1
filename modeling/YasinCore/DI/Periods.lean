import YasinCore.DI.History

namespace YasinCore.DI

open YasinCore.Library

variable {σ ι : Type} {events period : List (Event ι)} {event : Event ι} {key : Key}
  {lifetime : ServiceLifetime}

namespace Event

def registers (key : Key) : Event ι → Bool
  | .registered other _ => other = key
  | .completed _ _ | .yielded _ _ => false

def completes (key : Key) : Event ι → Bool
  | .completed other _ => other = key
  | .registered _ _ | .yielded _ _ => false

-- The note tells of an object that the registration of the key gave.
def Names (key : Key) (object : Option ι) (event : Event ι) : Prop :=
  event = .completed key object ∨ event = .yielded key object

theorem Names.registers_eq {object : Option ι} (h : event.Names key object) (other : Key) :
    event.registers other = false := by
  rcases h with rfl | rfl
  · rfl
  · rfl

theorem Names.eq_of_names {object object' : Option ι} {other : Key} (h : event.Names key object)
    (h' : event.Names other object') : other = key ∧ object' = object := by
  rcases h with rfl | rfl
  · rcases h' with he | he
    · cases he
      exact ⟨rfl, rfl⟩
    · cases he
  · rcases h' with he | he
    · cases he
    · cases he
      exact ⟨rfl, rfl⟩

theorem names_of_completes (h : event.completes key) : ∃ object, event.Names key object := by
  cases event with
  | completed other object =>
      have he : other = key := of_decide_eq_true h
      exact ⟨object, .inl (by rw [he])⟩
  | registered other lifetime => cases h
  | yielded other object => cases h

end Event

-- The provider completed once at most, and all that was given is one object.
def BuiltOnce (key : Key) (period : List (Event ι)) : Prop :=
  period.countP (Event.completes key) ≤ 1 ∧
    ∃ object, ∀ event ∈ period, ∀ other, event.Names key other → other = object

-- The notes since the last registration of a key
def Since (events : List (Event ι)) (key : Key) (lifetime : ServiceLifetime)
    (period : List (Event ι)) : Prop :=
  ∃ before, events = before ++ .registered key lifetime :: period ∧
    ∀ event ∈ period, event.registers key = false

namespace Since

theorem registered (events : List (Event ι)) (key : Key) (lifetime : ServiceLifetime) :
    Since (events ++ [.registered key lifetime]) key lifetime [] :=
  ⟨events, rfl, fun _ hm => absurd hm List.not_mem_nil⟩

theorem snoc (h : Since events key lifetime period) (hnot : event.registers key = false) :
    Since (events ++ [event]) key lifetime (period ++ [event]) := by
  obtain ⟨before, rfl, hperiod⟩ := h
  refine ⟨before, by simp, fun other hm => ?_⟩
  rcases List.mem_append.mp hm with hm | hm
  · exact hperiod other hm
  · rw [List.mem_singleton.mp hm]
    exact hnot

-- The last note begins the period, or it is the last one of the period.
theorem of_snoc (h : Since (events ++ [event]) key lifetime period) :
    period = [] ∨ event.registers key = false ∧
      ∃ earlier, period = earlier ++ [event] ∧ Since events key lifetime earlier := by
  obtain ⟨before, he, hperiod⟩ := h
  rcases List.eq_nil_or_concat' period with rfl | ⟨earlier, last, rfl⟩
  · exact .inl rfl
  · have hsplit : events ++ [event] = (before ++ .registered key lifetime :: earlier) ++ [last] := by
      rw [he]
      simp
    obtain ⟨hevents, hlast⟩ := List.append_inj' hsplit rfl
    cases hlast
    refine .inr ⟨hperiod event (by simp), earlier, rfl, before, hevents, fun other hm => ?_⟩
    exact hperiod other (List.mem_append_left _ hm)

-- There is one last registration.
theorem unique {lifetime' : ServiceLifetime} {period' : List (Event ι)}
    (h : Since events key lifetime period) (h' : Since events key lifetime' period') :
    lifetime = lifetime' ∧ period = period' := by
  have hlast {first second rest rest' : List (Event ι)} {l l' : ServiceLifetime}
      (he : first ++ .registered key l :: rest = second ++ .registered key l' :: rest')
      (hrest : ∀ event ∈ rest, event.registers key = false)
      (hlen : first.length ≤ second.length) : l = l' ∧ rest = rest' := by
    obtain ⟨between, rfl, htail⟩ | ⟨between, rfl, htail⟩ := List.append_eq_append_iff.mp he
    · cases between with
      | nil =>
          cases htail
          exact ⟨rfl, rfl⟩
      | cons head between =>
          obtain ⟨rfl, rfl⟩ := List.cons.inj htail
          have hnot := hrest (.registered key l') (by simp)
          simp [Event.registers] at hnot
    · cases between with
      | nil =>
          cases htail
          exact ⟨rfl, rfl⟩
      | cons head between =>
          simp only [List.length_append, List.length_cons] at hlen
          omega
  obtain ⟨before, he, hperiod⟩ := h
  obtain ⟨before', he', hperiod'⟩ := h'
  rcases Nat.le_total before.length before'.length with hlen | hlen
  · exact hlast (he.symm.trans he') hperiod hlen
  · obtain ⟨hlifetime, hrest⟩ := hlast (he'.symm.trans he) hperiod' hlen
    exact ⟨hlifetime.symm, hrest.symm⟩

end Since

-- Whenever the notes are read, the running period of a singleton is in order.
def OnceBuilt (events : List (Event ι)) : Prop :=
  ∀ earlier, earlier <+: events → ∀ key period, Since earlier key .singleton period → BuiltOnce key period

theorem BuiltOnce.nil (key : Key) : BuiltOnce key ([] : List (Event ι)) :=
  ⟨Nat.zero_le 1, none, fun _ hm => absurd hm List.not_mem_nil⟩

-- A note that does not tell of the key
theorem BuiltOnce.snoc (h : BuiltOnce key period) (hnot : ∀ object, ¬event.Names key object) :
    BuiltOnce key (period ++ [event]) := by
  obtain ⟨hcount, object, hobject⟩ := h
  have hcompletes : event.completes key = false := by
    rw [Bool.eq_false_iff]
    intro hc
    obtain ⟨other, hnames⟩ := Event.names_of_completes hc
    exact hnot other hnames
  refine ⟨?_, object, fun other hm => ?_⟩
  · rw [List.countP_append, List.countP_singleton, hcompletes]
    exact hcount
  · rcases List.mem_append.mp hm with hm | hm
    · exact hobject other hm
    · rw [List.mem_singleton.mp hm]
      exact fun given hnames => absurd hnames (hnot given)

theorem OnceBuilt.nil : OnceBuilt ([] : List (Event ι)) := by
  intro earlier hbegins key period h
  obtain ⟨before, he, _⟩ := h
  rw [List.prefix_nil.mp hbegins] at he
  simp at he

-- One note more
theorem OnceBuilt.snoc (h : OnceBuilt events)
    (hnew : ∀ key period, Since events key .singleton period → event.registers key = false →
      BuiltOnce key (period ++ [event])) : OnceBuilt (events ++ [event]) := by
  intro earlier hbegins key period hsince
  rcases List.prefix_concat_iff.mp hbegins with rfl | hbegins
  · rcases hsince.of_snoc with rfl | ⟨hnot, rest, rfl, hrest⟩
    · exact .nil key
    · exact hnew key rest hrest hnot
  · exact h earlier hbegins key period hsince

-- What the notes of the running period tell of a singleton: the object that it has now, and
-- nothing before its provider has completed.
structure Told (reg : Registration σ ι) (period : List (Event ι)) : Prop where
  same : ∀ event ∈ period, ∀ object, event.Names reg.key object → object = reg.object
  once : period.countP (Event.completes reg.key) ≤ 1
  silent : reg.factoryOrClass.isSome → reg.object = none →
    ∀ event ∈ period, ∀ object, ¬event.Names reg.key object

namespace Told

variable {reg : Registration σ ι}

theorem nil (reg : Registration σ ι) : Told reg [] where
  same _ hm := absurd hm List.not_mem_nil
  once := Nat.zero_le 1
  silent _ _ _ hm := absurd hm List.not_mem_nil

theorem builtOnce (h : Told reg period) : BuiltOnce reg.key period := ⟨h.once, reg.object, h.same⟩

theorem snoc_other (h : Told reg period) (hnot : ∀ object, ¬event.Names reg.key object) :
    Told reg (period ++ [event]) where
  same other hm object hnames := by
    rcases List.mem_append.mp hm with hm | hm
    · exact h.same other hm object hnames
    · rw [List.mem_singleton.mp hm] at hnames
      exact absurd hnames (hnot object)
  once := (h.builtOnce.snoc hnot).1
  silent hfactory hobject other hm object hnames := by
    rcases List.mem_append.mp hm with hm | hm
    · exact h.silent hfactory hobject other hm object hnames
    · rw [List.mem_singleton.mp hm] at hnames
      exact hnot object hnames

-- A note that names the object that the registration has
theorem snoc_names (h : Told reg period) (hnames : event.Names reg.key reg.object)
    (hobject : reg.factoryOrClass.isSome → reg.object.isSome)
    (hfirst : event.completes reg.key → ∀ event ∈ period, ∀ object, ¬event.Names reg.key object) :
    Told reg (period ++ [event]) where
  same other hm object ho := by
    rcases List.mem_append.mp hm with hm | hm
    · exact h.same other hm object ho
    · rw [List.mem_singleton.mp hm] at ho
      exact (hnames.eq_of_names ho).2
  once := by
    rw [List.countP_append, List.countP_singleton]
    cases hc : event.completes reg.key with
    | false => exact h.once
    | true =>
        have hzero : period.countP (Event.completes reg.key) = 0 := by
          refine List.countP_eq_zero.mpr fun other hm hcompletes => ?_
          obtain ⟨object, ho⟩ := Event.names_of_completes hcompletes
          exact hfirst hc other hm object ho
        rw [hzero]
        exact Nat.le_refl 1
  silent hfactory hnone := by
    have hsome := hobject hfactory
    rw [hnone] at hsome
    cases hsome

-- A silent period agrees with whatever object the provider gives.
theorem of_silent (hsilent : ∀ event ∈ period, ∀ object, ¬event.Names reg.key object) :
    Told reg period where
  same event hm object hnames := absurd hnames (hsilent event hm object)
  once := by
    have hzero : period.countP (Event.completes reg.key) = 0 := by
      refine List.countP_eq_zero.mpr fun event hm hcompletes => ?_
      obtain ⟨object, ho⟩ := Event.names_of_completes hcompletes
      exact hsilent event hm object ho
    omega
  silent _ _ := hsilent

end Told

end YasinCore.DI
