import YasinCore.Storage.Transactions

namespace YasinCore.Storage

open YasinCore.Library

variable {φ : Type}

-- What the subsystems rely on in a storage: a value that was set without an exception is what get
-- finds under its key. Nothing stands for an exception.
structure Backend (φ : Type) where
  State : Type
  set : Str → Json φ → State → Option State
  get : Str → State → Option (Json φ)
  get_set : ∀ {key : Str} {value : Json φ} {s t : State}, set key value s = some t →
    get key t = some value

-- A set that returns has put the value into the dictionary and the dictionary into the file.
theorem set_ok {floats : Floats φ} {disk : Disk} {key : Str} {value : Json φ}
    {s t : JSONFileStorage φ} (h : Operation.set floats disk key value s = .ok () t) :
    ∃ entries, t.data = .dict (Entries.assign key value entries) ∧ disk.Accepts floats t.data ∧
      t.file = some (disk.left floats t.data) := by
  have heffect := operation_effect floats disk (.set key value) s
  cases hd : s.data with
  | dict entries =>
      rw [hd] at heffect
      have hsave : Operation.set floats disk key value s =
          Operation.save floats disk { s with data := .dict (Entries.assign key value entries) } :=
        heffect
      have hsaved := save_saved floats disk { s with data := .dict (Entries.assign key value entries) }
      rw [← hsave, h] at hsaved
      cases hsaved with
      | done ha => exact ⟨entries, rfl, ha, rfl⟩
  | _ =>
      rw [hd] at heffect
      obtain ⟨e, he, -⟩ := heffect
      rw [Action.operation, h] at he
      cases he

namespace Backend

-- InMemoryStorage
def inMemory : Backend φ where
  State := Dict Str (Json φ)
  set key value data := some (data.set key value)
  get key data := some ((data.get? key).getD .null)
  get_set h := by
    cases h
    rw [Dict.get?_set_self, Option.getD_some]

theorem lookup_set {floats : Floats φ} {disk : Disk} {key : Str} {value : Json φ}
    {s t : JSONFileStorage φ} (h : Operation.set floats disk key value s = .ok () t) :
    (t.get key .null).toOption = some value := by
  obtain ⟨entries, hdata, -, -⟩ := set_ok h
  simp only [JSONFileStorage.get, hdata, Entries.lookup_assign, if_pos, Option.getD_some]
  rfl

-- A storage object that stays in use.
def jsonFile (floats : Floats φ) (disk : Disk) : Backend φ where
  State := JSONFileStorage φ
  set key value s :=
    match Operation.set floats disk key value s with
    | .ok _ t => some t
    | .error _ _ => none
  get key s := (s.get key .null).toOption
  get_set {key value s t} h := by
    cases hset : Operation.set floats disk key value s with
    | ok _ u =>
        rw [hset] at h
        cases h
        exact lookup_set hset
    | error e u =>
        rw [hset] at h
        cases h

open Classical in
-- A storage object that is made anew from the file before every read, while nothing is stored that
-- the format cannot express.
noncomputable def reopened (floats : Floats φ) (disk : Disk) (finite : φ → Prop)
    (lawful : Json.LawfulFloats floats finite) : Backend φ where
  State := JSONFileStorage φ
  set key value s :=
    match Operation.set floats disk key value s with
    | .ok _ t => if t.data.Representable finite then some t else none
    | .error _ _ => none
  get key s := ((s.reload floats).get key .null).toOption
  get_set {key value s t} h := by
    cases hset : Operation.set floats disk key value s with
    | ok _ u =>
        rw [hset] at h
        simp only [Option.ite_none_right_eq_some, Option.some.injEq] at h
        obtain ⟨hrepresentable, rfl⟩ := h
        obtain ⟨_, _, haccepts, hfile⟩ := set_ok hset
        have hreload : u.reload floats = u := by
          have hloaded : JSONFileStorage.loaded floats u.file = u.data := by
            rw [hfile, loaded_left lawful haccepts hrepresentable]
          exact congrArg (JSONFileStorage.mk u.filepath · u.file) hloaded
        rw [hreload]
        exact lookup_set hset
    | error e u =>
        rw [hset] at h
        cases h

end Backend

end YasinCore.Storage
