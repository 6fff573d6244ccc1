import YasinCore.Library.Simulation
import YasinCore.Memory.InMemory

namespace YasinCore.Memory

open YasinCore.Library

variable {φ : Type} (b : Builtins φ) (now : Clock)

-- The entries that have not expired.
def shown (data : Data φ) : Data φ := data.filter fun _ entry => !entry.isExpired b now

-- What a long-term memory is for: a dictionary of entries from which an entry is gone once it has
-- expired.
def Visible.call (call : Call φ) : EStateM MemoryError (Data φ) (Result φ) := fun data =>
  match call with
  | .set key value metadata ttl =>
      match MemoryEntry.ofSet b now key value metadata ttl with
      | .error e => .error e (shown b now data)
      | .ok entry => .ok .done ((shown b now data).set key entry)
  | .get key default =>
      .ok (.value (((shown b now data).get? key).elim default MemoryEntry.value)) (shown b now data)
  | .getEntry key => .ok (.entry ((shown b now data).get? key)) (shown b now data)
  | .delete key => .ok .done ((shown b now data).erase key)
  | .clear => .ok .done .empty
  | .search query =>
      match select (MemoryEntry.isHit b query) (shown b now data).values with
      | .error e => .error e (shown b now data)
      | .ok found => .ok (.entries found) (shown b now data)
  | .filter filters =>
      .ok (.entries ((shown b now data).values.filter (MemoryEntry.hasMetadata b filters)))
        (shown b now data)
  | .status => .ok (.status "active" (shown b now data).size (shown b now data).keys) (shown b now data)

namespace InMemory

theorem cleanupExpired_eq (data : Data φ) :
    cleanupExpired b now data = .ok PUnit.unit (shown b now data) := by
  have hshown : ((data.entries.filter fun item => item.2.isExpired b now).map Prod.fst).foldl
      Dict.erase data = shown b now data := by
    rw [Dict.foldl_erase]
    refine Dict.filter_congr fun key entry he => ?_
    have hkey : key ∈ (data.entries.filter fun item => item.2.isExpired b now).map Prod.fst ↔
        entry.isExpired b now := by
      constructor
      · intro hk
        obtain ⟨⟨other, found⟩, hf, rfl⟩ := List.mem_map.mp hk
        obtain ⟨hm, hexpired⟩ := List.mem_filter.mp hf
        have hsame := (data.mem_entries_iff other found).mp hm
        rw [he] at hsame
        exact Option.some.inj hsame ▸ hexpired
      · intro hexpired
        have hm := (data.mem_entries_iff key entry).mpr he
        exact List.mem_map.mpr ⟨_, List.mem_filter.mpr ⟨hm, hexpired⟩, rfl⟩
    simp [hkey]
  exact congrArg (EStateM.Result.ok PUnit.unit) hshown

-- Whatever a method does after its cleanup, it does to the entries that are shown.
theorem cleanupExpired_bind {α : Type} (next : PUnit → Operation φ α) (data : Data φ) :
    (cleanupExpired b now >>= next) data = next ⟨⟩ (shown b now data) := by
  show EStateM.bind _ _ _ = _
  unfold EStateM.bind
  rw [cleanupExpired_eq]

theorem get_bind {α : Type} (next : Data φ → Operation φ α) (data : Data φ) :
    (MonadState.get >>= next) data = next data data := rfl

-- The in-memory implementation does exactly what it is for.
theorem call_eq (c : Call φ) : call b now c = Visible.call b now c := by
  funext data
  cases c with
  | set key value metadata ttl =>
      simp only [call, set, bind_assoc, cleanupExpired_bind, Visible.call]
      cases MemoryEntry.ofSet b now key value metadata ttl <;> rfl
  | get key default =>
      simp only [call, get, bind_assoc, cleanupExpired_bind, get_bind, Visible.call]
      cases (shown b now data).get? key <;> rfl
  | getEntry key =>
      simp only [call, getEntry, bind_assoc, cleanupExpired_bind, Visible.call]
      rfl
  | delete key =>
      simp only [call, delete, bind_assoc, cleanupExpired_bind, Visible.call]
      rfl
  | clear => rfl
  | search query =>
      simp only [call, search, bind_assoc, cleanupExpired_bind, get_bind, Visible.call]
      cases select (MemoryEntry.isHit b query) (shown b now data).values <;> rfl
  | filter filters =>
      simp only [call, filter, bind_assoc, cleanupExpired_bind, Visible.call]
      rfl
  | status =>
      simp only [call, status, cleanupExpired_bind, Visible.call]
      rfl

end InMemory

end YasinCore.Memory
