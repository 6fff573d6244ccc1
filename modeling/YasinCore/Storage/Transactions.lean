import YasinCore.Library.Hoare
import YasinCore.Library.Json.RoundTrip
import YasinCore.Storage.JSONFile

namespace YasinCore.Storage

open YasinCore.Library

variable {φ : Type} {floats : Floats φ} {finite : φ → Prop} {disk : Disk}
  {s : JSONFileStorage φ} {data : Json φ}

-- The write does not come to opening the file.
def Disk.Blocks (disk : Disk) : Prop := disk.directory.isSome ∨ disk.opening.isSome

-- What a save of some data leaves in the file once the file is open.
def Disk.left (disk : Disk) (floats : Floats φ) (data : Json φ) : Content :=
  .text (disk.written (Json.encode floats 4 0 data))

-- The save of some data goes through: the file can be opened, the device takes the whole text, and
-- the encoder refuses nothing.
def Disk.Accepts (disk : Disk) (floats : Floats φ) (data : Json φ) : Prop :=
  ¬disk.Blocks ∧ disk.failure (Json.encode floats 4 0 data) = none

-- The three ways a save can go.
inductive Saved (floats : Floats φ) (disk : Disk) (s : JSONFileStorage φ) :
    EStateM.Result StorageError (JSONFileStorage φ) Unit → Prop
  | blocked (message : String) : disk.Blocks → Saved floats disk s (.error (.connection message) s)
  | failed (message : String) : ¬disk.Blocks → ¬disk.Accepts floats s.data →
      Saved floats disk s (.error (.connection message) { s with file := some (disk.left floats s.data) })
  | done : disk.Accepts floats s.data →
      Saved floats disk s (.ok () { s with file := some (disk.left floats s.data) })

theorem save_saved (floats : Floats φ) (disk : Disk) (s : JSONFileStorage φ) :
    Saved floats disk s (Operation.save floats disk s) := by
  unfold Operation.save
  cases hd : disk.directory with
  | some e => exact .blocked _ (.inl (by simp [hd]))
  | none =>
      cases ho : disk.opening with
      | some e => exact .blocked _ (.inr (by simp [ho]))
      | none =>
          have hopen : ¬disk.Blocks := by simp [Disk.Blocks, hd, ho]
          cases hf : disk.failure (Json.encode floats 4 0 s.data) with
          | some e =>
              have hrefused : ¬disk.Accepts floats s.data := by
                rintro ⟨-, ha⟩
                rw [hf] at ha
                cases ha
              simp only [run_get_bind, run_modify_bind, hf]
              exact .failed _ hopen hrefused
          | none =>
              simp only [run_get_bind, run_modify_bind, hf]
              exact .done ⟨hopen, hf⟩

theorem Disk.written_of_accepts (h : disk.Accepts floats data) :
    disk.written (Json.encode floats 4 0 data) = (Json.encode floats 4 0 data).text ∧
      (Json.encode floats 4 0 data).refusal = none := by
  obtain ⟨-, hf⟩ := h
  unfold Disk.failure at hf
  unfold Disk.written
  cases hr : disk.room with
  | none =>
      rw [hr] at hf
      exact ⟨rfl, hf⟩
  | some room =>
      simp only [hr] at hf
      split at hf
      · cases hf
      · exact ⟨List.take_of_length_le (by omega), hf⟩

-- What went through is read back, if the format can express it.
theorem loaded_left (hl : Json.LawfulFloats floats finite) (h : disk.Accepts floats data)
    (hd : data.Representable finite) :
    JSONFileStorage.loaded floats (some (disk.left floats data)) = data := by
  rw [Disk.left, (Disk.written_of_accepts h).1, JSONFileStorage.loaded, Json.decode_encode hl hd,
    Option.getD_some]

-- What a call does before a save: it saves new data, returns without a save, or raises what is no
-- storage error.
inductive Effect (φ : Type)
  | saves (data : Json φ)
  | returns
  | raises

def Action.effect : Action φ → Json φ → Effect φ
  | .set key value, .dict entries => .saves (.dict (Entries.assign key value entries))
  | .set _ _, _ => .raises
  | .delete key, .dict entries =>
      if key ∈ entries.map Prod.fst then .saves (.dict (Entries.remove key entries)) else .returns
  | .delete key, .list items => if items.any (Operation.isStr key) then .raises else .returns
  | .delete key, .str s => if key <:+: s then .raises else .returns
  | .delete _, _ => .raises
  | .clear, .dict _ => .saves (.dict [])
  | .clear, .list _ => .saves (.list [])
  | .clear, _ => .raises

variable {act : Action φ}

theorem operation_effect (floats : Floats φ) (disk : Disk) (act : Action φ) (s : JSONFileStorage φ) :
    match act.effect s.data with
    | .saves data => act.operation floats disk s = Operation.save floats disk { s with data := data }
    | .returns => act.operation floats disk s = .ok () s
    | .raises => ∃ e, act.operation floats disk s = .error e s ∧ ∀ message, e ≠ .connection message := by
  obtain ⟨filepath, data, file⟩ := s
  cases act with
  | set key value =>
      cases data with
      | dict entries => rfl
      | _ => exact ⟨.typeError, rfl, nofun⟩
  | delete key =>
      cases data with
      | dict entries =>
          by_cases hk : key ∈ entries.map Prod.fst
          · simp only [Action.effect, if_pos hk]
            exact congrFun (if_pos hk) _
          · simp only [Action.effect, if_neg hk]
            exact congrFun (if_neg hk) _
      | list items =>
          by_cases hk : items.any (Operation.isStr key)
          · simp only [Action.effect, if_pos hk]
            exact ⟨.typeError, congrFun (if_pos hk) _, nofun⟩
          · simp only [Action.effect, if_neg hk]
            exact congrFun (if_neg hk) _
      | str text =>
          by_cases hk : key <:+: text
          · simp only [Action.effect, if_pos hk]
            exact ⟨.typeError, congrFun (if_pos hk) _, nofun⟩
          · simp only [Action.effect, if_neg hk]
            exact congrFun (if_neg hk) _
      | _ => exact ⟨.typeError, rfl, nofun⟩
  | clear =>
      cases data with
      | dict entries => rfl
      | list items => rfl
      | _ => exact ⟨.attributeError, rfl, nofun⟩

-- The promise: after a return the memory is what the file says and a reload changes nothing, and
-- after a StorageConnectionError the storage is what it was, so that later calls go on from there.
def Transactional (floats : Floats φ) (finite : φ → Prop) (disk : Disk) (act : Action φ)
    (s : JSONFileStorage φ) : Prop :=
  match act.operation floats disk s with
  | .ok _ t => t.data.Representable finite →
      JSONFileStorage.loaded floats t.file = t.data ∧ t.reload floats = t
  | .error (.connection _) t => t = s
  | .error _ _ => True

-- A save that cannot go through does no harm: it changes nothing in memory, and either the file is
-- not opened or it already holds what is left of the write.
def Harmless (floats : Floats φ) (disk : Disk) (s : JSONFileStorage φ) (data : Json φ) : Prop :=
  data = s.data ∧ (disk.Blocks ∨ s.file = some (disk.left floats data))

-- The condition of the promise, on the state before the call. A call that returns without a save
-- needs memory and file to agree already.
def Safe (floats : Floats φ) (finite : φ → Prop) (disk : Disk) (act : Action φ)
    (s : JSONFileStorage φ) : Prop :=
  match act.effect s.data with
  | .saves data => disk.Accepts floats data ∨ Harmless floats disk s data
  | .returns => s.data.Representable finite → JSONFileStorage.loaded floats s.file = s.data
  | .raises => True

-- A call keeps the promise exactly when its save goes through or cannot do harm.
theorem transactional_iff (hl : Json.LawfulFloats floats finite) (disk : Disk) (act : Action φ)
    (s : JSONFileStorage φ) : Transactional floats finite disk act s ↔ Safe floats finite disk act s := by
  have heffect := operation_effect floats disk act s
  unfold Transactional Safe
  cases he : act.effect s.data with
  | saves data =>
      simp only [he] at heffect
      rw [heffect]
      have hsaved := save_saved floats disk { s with data := data }
      generalize Operation.save floats disk { s with data := data } = result at hsaved ⊢
      cases hsaved with
      | blocked message hb =>
          have hrefused : ¬disk.Accepts floats data := fun ha => ha.1 hb
          show JSONFileStorage.mk s.filepath data s.file = s ↔ _ ∨ Harmless floats disk s data
          rw [or_iff_right hrefused, Harmless, and_iff_left (.inl hb)]
          exact ⟨fun ht => congrArg JSONFileStorage.data ht, fun hd => hd ▸ rfl⟩
      | failed message hb ha =>
          show JSONFileStorage.mk s.filepath data (some (disk.left floats data)) = s ↔
            _ ∨ Harmless floats disk s data
          rw [or_iff_right ha, Harmless, or_iff_right hb]
          constructor
          · intro ht
            exact ⟨congrArg JSONFileStorage.data ht, (congrArg JSONFileStorage.file ht).symm⟩
          · rintro ⟨hd, hfile⟩
            rw [← hfile, hd]
      | done ha =>
          refine iff_of_true (fun hd => ?_) (.inl ha)
          have hloaded := loaded_left hl ha hd
          exact ⟨hloaded, congrArg (JSONFileStorage.mk s.filepath · _) hloaded⟩
  | returns =>
      simp only [he] at heffect
      rw [heffect]
      refine imp_congr_right fun _ => ⟨And.left, fun hd => ⟨hd, ?_⟩⟩
      exact congrArg (JSONFileStorage.mk s.filepath · s.file) hd
  | raises =>
      simp only [he] at heffect
      obtain ⟨e, heffect, hno⟩ := heffect
      rw [heffect]
      cases e with
      | connection message => exact absurd rfl (hno message)
      | typeError => exact Iff.rfl
      | attributeError => exact Iff.rfl

section Sample

-- The only number is 1.5.
def sampleFloats : Floats Unit where
  text _ := ['1', '.', '5']
  value _ := ()

theorem sampleFloats_lawful : Json.LawfulFloats sampleFloats fun _ => True where
  text _ _ := by
    refine ⟨[], ['1'], ['.', '5'], [], .inl rfl, .inr ⟨⟨by simp, by simp⟩, by decide⟩,
      .inr ⟨['5'], ⟨by simp, by simp⟩, rfl⟩, .inl rfl, by decide, rfl⟩
  value_text _ _ := rfl

def ready : Disk where
  directory := none
  opening := none
  room := none

def fresh : JSONFileStorage Unit where
  filepath := "store.json"
  data := .dict []
  file := none

def setA : Action Unit := .set (.ofString "a") (.float ())

def setUnserializable : Action Unit :=
  .set (.ofString "b") (.object "Object of type set is not JSON serializable")

-- A first value is stored as promised.
theorem set_transactional : Transactional sampleFloats (fun _ => True) ready setA fresh := by
  refine (transactional_iff sampleFloats_lawful ready setA fresh).mpr (.inl ⟨?_, ?_⟩)
  · simp [Disk.Blocks, ready]
  · decide +kernel

-- A value that cannot be serialized destroys the file: the first value is gone after a reload, and
-- a later call on another key fails over the value that stayed in memory.
theorem failed_set_destroys_file : ∃ s t u : JSONFileStorage Unit, ∃ message message',
    setA.operation sampleFloats ready fresh = .ok () s ∧
      setUnserializable.operation sampleFloats ready s = .error (.connection message) t ∧
      t.data ≠ s.data ∧ t.file ≠ s.file ∧
      (s.reload sampleFloats).get (.ofString "a") .null = .ok (.float ()) ∧
      (t.reload sampleFloats).get (.ofString "a") .null = .ok .null ∧
      (Action.set (.ofString "c") (.int 1)).operation sampleFloats ready t =
        .error (.connection message') u := by
  refine ⟨_, _, _, _, _, rfl, rfl, ?_, ?_, rfl, rfl, rfl⟩
  · intro h
    injection h with h
    injection h with _ h
    cases h
  · decide +kernel

end Sample

end YasinCore.Storage
