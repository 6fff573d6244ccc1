import YasinCore.Context.Engine.Lemmas

namespace YasinCore.Context

open YasinCore.Library

variable {φ ν μ : Type}

namespace ContextEngine

-- A context sees its own data and those of the contexts up its chain of parents.
inductive Inherits (e : ContextEngine φ ν) : ContextRef → ContextRef → Prop
  | self (ref : ContextRef) : Inherits e ref ref
  | parent {ref parent other : ContextRef} {ctx : RuntimeContext φ ν} {id : Str} :
      e.objects[ref]? = some ctx → given ctx.parentId = some id → e.contexts.get? id = some parent →
      Inherits e parent other → Inherits e ref other

-- The engine has become another one by some calls: objects keep their parents, nothing that they
-- might inherit from has become known, and their data are old but for some new values.
structure Evolves (new : ν → Prop) (e t : ContextEngine φ ν) : Prop where
  length : e.objects.length ≤ t.objects.length
  parent : ∀ (ref : ContextRef) (ctx : RuntimeContext φ ν), ref < e.objects.length →
    t.objects[ref]? = some ctx →
      ∃ old : RuntimeContext φ ν, e.objects[ref]? = some old ∧ ctx.parentId = old.parentId
  known : ∀ id ref, t.contexts.get? id = some ref → e.contexts.get? id = some ref ∨
    e.objects.length ≤ ref ∧ ∀ old ∈ e.objects, old.parentId ≠ some id
  value : ∀ (ref : ContextRef) (ctx : RuntimeContext φ ν) key value, t.objects[ref]? = some ctx →
    ctx.data.get? key = some value → new value ∨
      ∃ old : RuntimeContext φ ν, e.objects[ref]? = some old ∧ old.data.get? key = some value

section Evolves

variable {new : ν → Prop} {e t u : ContextEngine φ ν} {ref other : ContextRef}
  {ctx : RuntimeContext φ ν} {f : RuntimeContext φ ν → RuntimeContext φ ν}

theorem Evolves.refl : Evolves new e e where
  length := le_rfl
  parent _ ctx _ ho := ⟨ctx, ho, rfl⟩
  known _ _ hc := .inl hc
  value _ ctx _ _ ho hv := .inr ⟨ctx, ho, hv⟩

theorem Evolves.trans (h : Evolves new e t) (h' : Evolves new t u) : Evolves new e u where
  length := h.length.trans h'.length
  parent ref ctx hlt ho := by
    obtain ⟨mid, hm, hparent⟩ := h'.parent ref ctx (hlt.trans_le h.length) ho
    obtain ⟨old, hold, hparent'⟩ := h.parent ref mid hlt hm
    exact ⟨old, hold, hparent.trans hparent'⟩
  known id ref hc := by
    rcases h'.known id ref hc with hc | ⟨hlt, hnone⟩
    · exact h.known id ref hc
    · refine .inr ⟨h.length.trans hlt, fun old ho hp => ?_⟩
      obtain ⟨index, hi⟩ := List.mem_iff_getElem?.mp ho
      have hindex : index < e.objects.length := (List.getElem?_eq_some_iff.mp hi).1
      have hmid : index < t.objects.length := hindex.trans_le h.length
      obtain ⟨found, hfound, hparent⟩ := h.parent index _ hindex (List.getElem?_eq_getElem hmid)
      rw [hi] at hfound
      cases hfound
      exact hnone _ (List.getElem_mem hmid) (hparent.trans hp)
  value ref ctx key value ho hv := by
    rcases h'.value ref ctx key value ho hv with hn | ⟨mid, hm, hv⟩
    · exact .inl hn
    · exact h.value ref mid key value hm hv

-- A change of an object in place.
theorem Evolves.update (hparent : ∀ ctx, (f ctx).parentId = ctx.parentId)
    (hvalue : ∀ ctx key value, (f ctx).data.get? key = some value →
      new value ∨ ctx.data.get? key = some value) : Evolves new e (e.update ref f) where
  length := by rw [ContextEngine.update, List.length_modify]
  parent other ctx _ ho := by
    rw [objects_update] at ho
    split at ho
    · obtain ⟨old, hold, rfl⟩ := Option.map_eq_some_iff.mp ho
      exact ⟨old, hold, hparent old⟩
    · exact ⟨ctx, ho, rfl⟩
  known _ _ hc := .inl hc
  value other ctx key value ho hv := by
    rw [objects_update] at ho
    split at ho
    · obtain ⟨old, hold, rfl⟩ := Option.map_eq_some_iff.mp ho
      exact (hvalue old key value hv).imp_right fun hv => ⟨old, hold, hv⟩
    · exact .inr ⟨ctx, ho, hv⟩

theorem Evolves.forget (id : Str) :
    Evolves new e { e with contexts := e.contexts.erase id } where
  length := le_rfl
  parent _ ctx _ ho := ⟨ctx, ho, rfl⟩
  known other ref hc := by
    rw [Dict.get?_erase] at hc
    split at hc
    · cases hc
    · exact .inl hc
  value _ ctx _ _ ho hv := .inr ⟨ctx, ho, hv⟩

theorem Evolves.drop (ref : ContextRef) (id : Str) :
    Evolves new e { e.update ref .deactivate with contexts := e.contexts.erase id } := by
  have hupdate : Evolves new e (e.update ref .deactivate) :=
    .update (fun _ => rfl) fun _ _ _ => .inr
  exact hupdate.trans (.forget id)

theorem Evolves.handleExpiration (ref : ContextRef) (ctx : RuntimeContext φ ν) :
    Evolves new e (e.handleExpiration ref ctx) := by
  unfold ContextEngine.handleExpiration
  split
  · exact .drop ref ctx.id
  · exact .refl

theorem Evolves.getContext (now : Utc) (id : Str) : Evolves new e (e.getContext now id).2 := by
  rcases getContext_cases now id e with ⟨ref, ctx, _, _, he⟩ | ⟨_, he⟩ | ⟨ref, ctx, _, _, he⟩
  · rw [he]
    exact .refl
  · rw [he]
    exact .refl
  · rw [he]
    exact .handleExpiration ref ctx

theorem Evolves.deleteContext (id : Str) : Evolves new e (e.deleteContext id) := by
  unfold ContextEngine.deleteContext
  split
  · exact .drop _ id
  · exact .refl

theorem Evolves.change (now : Utc) (id : Str) (hparent : ∀ ctx, (f ctx).parentId = ctx.parentId)
    (hvalue : ∀ ctx key value, (f ctx).data.get? key = some value →
      new value ∨ ctx.data.get? key = some value) : Evolves new e (e.change now id f) := by
  have hget : Evolves new e (e.getContext now id).2 := .getContext now id
  unfold ContextEngine.change
  split
  · rename_i ref t heq
    rw [heq] at hget
    exact hget.trans (.update hparent hvalue)
  · rename_i t heq
    rw [heq] at hget
    exact hget

theorem Evolves.get (now : Nat → Utc) (depth : Nat) (ref : ContextRef) (key : Str) :
    Evolves new e (e.get now depth ref key).2 := by
  induction depth generalizing ref e with
  | zero => exact .refl
  | succ depth ih =>
      unfold ContextEngine.get
      split
      · exact .refl
      · split
        · exact .refl
        · split
          · exact .refl
          · rename_i parentId _
            have hget : Evolves new e (e.getContext (now depth) parentId).2 := .getContext _ _
            split
            · rename_i parent t heq
              rw [heq] at hget
              exact hget.trans (ih parent)
            · rename_i t heq
              rw [heq] at hget
              exact hget

theorem init_data {timedelta : φ → Option Int} {now : Utc} {uuid : Uuid}
    {contextId parentId : Option Str} {data metadata : Option (Dict Str ν)}
    {ttl : Option (Number φ)} {tags : Option (List Str)} {createdAt updatedAt expiresAt : Option Str}
    (h : RuntimeContext.init timedelta now uuid contextId parentId data metadata ttl tags createdAt
      updatedAt expiresAt = .ok ctx) :
    ctx.id = (given contextId).getD uuid.val ∧ ctx.parentId = parentId ∧
      ctx.data = data.getD .empty := by
  unfold RuntimeContext.init at h
  dsimp only at h
  cases he : RuntimeContext.expiry timedelta now ((given createdAt).getD now.val.isoformat) ttl
    (given expiresAt) with
  | error _ =>
      rw [he] at h
      cases h
  | ok _ =>
      rw [he] at h
      cases h
      exact ⟨rfl, rfl, rfl⟩

-- A new context, under an identifier that no context names as its parent.
theorem Evolves.add {id : Str} (hparent : ∀ old ∈ e.objects, old.parentId ≠ some id)
    (hvalue : ∀ key value, ctx.data.get? key = some value → new value) :
    Evolves new e (e.add id ctx) where
  length := by simp [ContextEngine.add]
  parent ref found hlt ho := by
    rw [ContextEngine.add, List.getElem?_append_left hlt] at ho
    exact ⟨found, ho, rfl⟩
  known other ref hc := by
    rw [ContextEngine.add, Dict.get?_set] at hc
    split at hc
    · rename_i hid
      cases hc
      exact .inr ⟨le_rfl, hid ▸ hparent⟩
    · exact .inl hc
  value ref found key value ho hv := by
    rw [ContextEngine.add] at ho
    by_cases hlt : ref < e.objects.length
    · rw [List.getElem?_append_left hlt] at ho
      exact .inr ⟨found, ho, hv⟩
    · rw [List.getElem?_append_right (Nat.le_of_not_lt hlt)] at ho
      have hm := List.mem_singleton.mp (List.mem_of_getElem? ho)
      rw [hm] at hv
      exact .inl (hvalue key value hv)

theorem get?_update {κ α : Type} [DecidableEq κ] {dict other : Dict κ α} {key : κ} {value : α}
    (h : (dict.update other).get? key = some value) :
    other.get? key = some value ∨ dict.get? key = some value := by
  have hfold (entries : List (κ × α)) (d : Dict κ α)
      (h : (entries.foldl (fun (d : Dict κ α) entry => d.set entry.1 entry.2) d).get? key =
        some value) : (key, value) ∈ entries ∨ d.get? key = some value := by
    induction entries generalizing d with
    | nil => exact .inr h
    | cons entry entries ih =>
        rcases ih _ h with hm | hd
        · exact .inl (.tail _ hm)
        · rw [Dict.get?_set] at hd
          split at hd
          · rename_i hkey
            cases hd
            exact .inl (hkey ▸ .head _)
          · exact .inr hd
  exact (hfold other.entries dict h).imp_left (Dict.mem_entries_iff _ _ _).mp

-- Values that are made by a function are the function's.
theorem new_of_mapValues {f : μ → ν} (hf : ∀ value, new (f value)) {data : Dict Str μ} {key : Str}
    {value : ν} (h : (data.mapValues fun _ => f).get? key = some value) : new value := by
  rw [Dict.get?_mapValues] at h
  obtain ⟨old, -, rfl⟩ := Option.map_eq_some_iff.mp h
  exact hf old

-- What the calls of other code bring in are the values that they are made with.
theorem Evolves.perform (timedelta : φ → Option Int) {f : μ → ν} (hf : ∀ value, new (f value))
    {act : Action φ μ} (hfresh : e.Fresh act) :
    Evolves new e (e.perform timedelta (act.map f)) := by
  cases act with
  | createContext now uuid data parentId metadata ttl tags =>
      simp only [Action.map, ContextEngine.perform, ContextEngine.createContext]
      cases hi : RuntimeContext.init timedelta now uuid none parentId
          (data.map (·.mapValues fun _ => f)) (metadata.map (·.mapValues fun _ => f)) ttl tags none
          none none with
      | error _ => exact .refl
      | ok ctx =>
          obtain ⟨hid, -, hdata⟩ := init_data hi
          refine .add (fun old ho => ?_) fun key value hv => ?_
          · rw [hid]
            exact (hfresh old ho).2
          · rw [hdata] at hv
            cases data with
            | none => cases hv
            | some data => exact new_of_mapValues hf hv
  | set now ref key value =>
      refine .update (fun _ => rfl) fun ctx other found hv => ?_
      have hset : (ctx.data.set key (f value)).get? other = some found := hv
      rw [Dict.get?_set] at hset
      split at hset
      · cases hset
        exact .inl (hf value)
      · exact .inr hset
  | delete now ref key =>
      refine .update (fun _ => rfl) fun ctx other found hv => ?_
      have herase : (ctx.data.erase key).get? other = some found := hv
      rw [Dict.get?_erase] at herase
      split at herase
      · cases herase
      · exact .inr herase
  | clear now ref =>
      refine .update (fun _ => rfl) fun ctx other found hv => ?_
      cases hv
  | updateContextData now later id data =>
      refine .change now id (fun _ => rfl) fun ctx other found hv => ?_
      exact (get?_update hv).imp_left (new_of_mapValues hf)
  | updateContextMetadata now later id metadata =>
      exact .change now id (fun _ => rfl) fun ctx other found hv => .inr hv
  | addTags now later id tags =>
      exact .change now id (fun _ => rfl) fun ctx other found hv => .inr hv
  | deleteContext id => exact .deleteContext id
  | getContext now id => exact .getContext now id
  | get now depth ref key => exact .get now depth ref key

-- What is inherited afterwards was inherited before.
theorem Evolves.inherits (h : Evolves new e t) (hw : e.WellFormed) (hi : Inherits t ref other)
    (hlt : ref < e.objects.length) : Inherits e ref other ∧ other < e.objects.length := by
  induction hi with
  | self ref => exact ⟨.self ref, hlt⟩
  | @parent ref parent other ctx id ho hp hc _ ih =>
      obtain ⟨old, hold, hparent⟩ := h.parent ref ctx hlt ho
      rw [hparent] at hp
      have hknown : e.contexts.get? id = some parent := by
        refine (h.known id parent hc).resolve_right fun ⟨_, hnone⟩ => ?_
        exact hnone old (List.mem_of_getElem? hold) (Option.filter_eq_some_iff.mp hp).1
      obtain ⟨hrest, hother⟩ := ih (hw.lt hknown)
      exact ⟨.parent hold hp hknown hrest, hother⟩

-- A value that get finds is in the data of a context that is inherited from.
theorem inherits_of_get {now : Nat → Utc} {depth : Nat} {key : Str} {value : ν}
    (h : (e.get now depth ref key).1 = .ok (some value)) :
    ∃ other ctx, Inherits e ref other ∧ e.objects[other]? = some ctx ∧
      ctx.data.get? key = some value := by
  induction depth generalizing ref with
  | zero => cases h
  | succ depth ih =>
      unfold ContextEngine.get at h
      cases ho : e.objects[ref]? with
      | none =>
          rw [ho] at h
          cases h
      | some ctx =>
          rw [ho] at h
          dsimp only at h
          cases hv : ctx.data.get? key with
          | some found =>
              rw [hv] at h
              cases h
              exact ⟨ref, ctx, .self ref, ho, hv⟩
          | none =>
              rw [hv] at h
              dsimp only at h
              cases hp : given ctx.parentId with
              | none =>
                  rw [hp] at h
                  cases h
              | some parentId =>
                  rw [hp] at h
                  dsimp only at h
                  rcases getContext_cases (now depth) parentId e with ⟨parent, _, hf, _, he⟩ | ⟨_, he⟩ |
                    ⟨_, _, _, _, he⟩
                  · rw [he] at h
                    obtain ⟨other, seen, hi, hs⟩ := ih h
                    exact ⟨other, seen, .parent ho hp (find_eq_some.mp hf).1 hi, hs⟩
                  · rw [he] at h
                    cases h
                  · rw [he] at h
                    cases h

end Evolves

end ContextEngine

end YasinCore.Context
