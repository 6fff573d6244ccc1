import YasinCore.Context.Inheritance
import YasinCore.Context.Persistence

namespace YasinCore.Context

open YasinCore.Library

variable {φ ν : Type} {timedelta : φ → Option Int}

-- An empty dictionary counts as nothing.
def RuntimeContext.ofPayload (timedelta : φ → Option Int) (now : Utc) (uuid : Uuid) :
    List (Str × Json φ) → Option (RuntimeContext φ (Json φ))
  | [] => none
  | payload@(_ :: _) => deserialize timedelta now uuid payload

namespace ContextEngine

def clear (e : ContextEngine φ ν) : ContextEngine φ ν where
  objects := e.contexts.values.foldl (fun objects ref => objects.modify ref .deactivate) e.objects
  contexts := .empty

-- With a reading of the clock for each context.
def pruneExpiredContexts (now : Str → Utc) (e : ContextEngine φ ν) : ContextEngine φ ν :=
  let expired := (e.contexts.keys.filterMap e.find).filter fun found =>
    found.2.isExpired (now found.2.id)
  expired.foldl (fun e found => e.handleExpiration found.1 found.2) e

-- What save_context_to_storage hands to the storage, if anything.
def contextPayload (now : Utc) (id : Str) (e : ContextEngine φ (Json φ)) :
    Option (List (Str × Json φ)) × ContextEngine φ (Json φ) :=
  match e.getContext now id with
  | (some ref, e) => ((e.objects[ref]?).map RuntimeContext.serialize, e)
  | (none, e) => (none, e)

-- load_context_from_storage with the dictionary that the storage holds. An exception leaves the
-- engine as it was.
def loadContext (timedelta : φ → Option Int) (now : Utc) (uuid : Uuid)
    (payload : List (Str × Json φ)) (e : ContextEngine φ (Json φ)) : ContextEngine φ (Json φ) :=
  match RuntimeContext.ofPayload timedelta now uuid payload with
  | some ctx => e.add ctx.id ctx
  | none => e

-- load_all_contexts_from_storage with the dictionary that the storage holds; an exception leaves
-- what has been loaded before it.
def loadAllContexts (timedelta : φ → Option Int) (now : Str → Utc) (uuid : Str → Uuid)
    (e : ContextEngine φ (Json φ)) : List (Str × Json φ) → ContextEngine φ (Json φ)
  | [] => e
  | (id, .dict payload) :: rest =>
      match RuntimeContext.deserialize timedelta (now id) (uuid id) payload with
      | some ctx => loadAllContexts timedelta now uuid (e.add id ctx) rest
      | none => e
  | _ :: _ => e

-- The contexts that the engine has made, each with the parent that it was made under.
def names (e : ContextEngine φ ν) : List (Str × Option Str) :=
  e.objects.map fun ctx => (ctx.id, ctx.parentId)

-- What a call adds to them.
def created (timedelta : φ → Option Int) (e : ContextEngine φ ν) :
    Action φ ν → List (Str × Option Str)
  | .createContext now uuid data parentId metadata ttl tags =>
      match e.createContext timedelta now uuid data parentId metadata ttl tags with
      | .ok _ => [(uuid.val, parentId)]
      | .error _ => []
  | _ => []

variable {e : ContextEngine φ ν} {f : RuntimeContext φ ν → RuntimeContext φ ν}

section Names

theorem names_add (e : ContextEngine φ ν) (id : Str) (ctx : RuntimeContext φ ν) :
    (e.add id ctx).names = e.names ++ [(ctx.id, ctx.parentId)] := by
  rw [names, add, List.map_append]
  rfl

-- A change that keeps the identifier and the parent.
theorem map_modify {objects : List (RuntimeContext φ ν)} (ref : ContextRef)
    (hf : ∀ ctx : RuntimeContext φ ν, (f ctx).id = ctx.id ∧ (f ctx).parentId = ctx.parentId) :
    (objects.modify ref f).map (fun ctx => (ctx.id, ctx.parentId)) =
      objects.map fun ctx => (ctx.id, ctx.parentId) := by
  refine List.ext_getElem? fun i => ?_
  rw [List.getElem?_map, List.getElem?_map, List.getElem?_modify]
  cases objects[i]? with
  | none => rfl
  | some ctx =>
      obtain ⟨hid, hparent⟩ := hf ctx
      by_cases hi : ref = i <;> simp [hi, hid, hparent]

theorem names_update (ref : ContextRef)
    (hf : ∀ ctx : RuntimeContext φ ν, (f ctx).id = ctx.id ∧ (f ctx).parentId = ctx.parentId) :
    (e.update ref f).names = e.names :=
  map_modify ref hf

theorem names_handleExpiration (ref : ContextRef) (ctx : RuntimeContext φ ν) :
    (e.handleExpiration ref ctx).names = e.names := by
  unfold handleExpiration
  split
  · exact names_update ref fun _ => ⟨rfl, rfl⟩
  · rfl

theorem names_getContext (now : Utc) (id : Str) : (e.getContext now id).2.names = e.names := by
  rcases getContext_cases now id e with ⟨ref, ctx, _, _, he⟩ | ⟨_, he⟩ | ⟨ref, ctx, _, _, he⟩
  · rw [he]
  · rw [he]
  · rw [he]
    exact names_handleExpiration ref ctx

theorem names_deleteContext (id : Str) : (e.deleteContext id).names = e.names := by
  unfold deleteContext
  split
  · exact names_update _ fun _ => ⟨rfl, rfl⟩
  · rfl

theorem names_change (now : Utc) (id : Str)
    (hf : ∀ ctx : RuntimeContext φ ν, (f ctx).id = ctx.id ∧ (f ctx).parentId = ctx.parentId) :
    (e.change now id f).names = e.names := by
  have hget := names_getContext (e := e) now id
  unfold change
  split
  · rename_i ref t heq
    rw [heq] at hget
    exact (names_update ref hf).trans hget
  · rename_i t heq
    rw [heq] at hget
    exact hget

theorem names_get (now : Nat → Utc) (depth : Nat) (ref : ContextRef) (key : Str) :
    (e.get now depth ref key).2.names = e.names := by
  induction depth generalizing ref e with
  | zero => rfl
  | succ depth ih =>
      unfold get
      split
      · rfl
      · split
        · rfl
        · split
          · rfl
          · rename_i parentId _
            have hget := names_getContext (e := e) (now depth) parentId
            split
            · rename_i parent t heq
              rw [heq] at hget
              exact (ih parent).trans hget
            · rename_i t heq
              rw [heq] at hget
              exact hget

theorem names_clear : e.clear.names = e.names := by
  have hfold (refs : List ContextRef) (objects : List (RuntimeContext φ ν)) :
      (refs.foldl (fun objects ref => objects.modify ref .deactivate) objects).map
        (fun ctx => (ctx.id, ctx.parentId)) = objects.map fun ctx => (ctx.id, ctx.parentId) := by
    induction refs generalizing objects with
    | nil => rfl
    | cons ref refs ih => exact (ih _).trans (map_modify ref fun _ => ⟨rfl, rfl⟩)
  exact hfold e.contexts.values e.objects

theorem names_pruneExpiredContexts (now : Str → Utc) :
    (e.pruneExpiredContexts now).names = e.names :=
  List.foldlRecOn _ _ (motive := fun t : ContextEngine φ ν => t.names = e.names) rfl
    fun _ h found _ => (names_handleExpiration found.1 found.2).trans h

theorem names_perform (timedelta : φ → Option Int) (act : Action φ ν) :
    (e.perform timedelta act).names = e.names ++ e.created timedelta act := by
  have hkept {t : ContextEngine φ ν} (h : t.names = e.names) : t.names = e.names ++ [] := by
    rw [h, List.append_nil]
  cases act with
  | createContext now uuid data parentId metadata ttl tags =>
      simp only [perform, created, createContext]
      cases hi : RuntimeContext.init timedelta now uuid none parentId data metadata ttl tags none
          none none with
      | error _ => exact hkept rfl
      | ok ctx =>
          obtain ⟨hid, hparent, -⟩ := init_data hi
          have hname : (ctx.id, ctx.parentId) = (uuid.val, parentId) := Prod.ext hid hparent
          have hadd := names_add e ctx.id ctx
          rw [hname] at hadd
          exact hadd
  | set now ref key value => exact hkept (names_update ref fun _ => ⟨rfl, rfl⟩)
  | delete now ref key => exact hkept (names_update ref fun _ => ⟨rfl, rfl⟩)
  | clear now ref => exact hkept (names_update ref fun _ => ⟨rfl, rfl⟩)
  | updateContextData now later id data => exact hkept (names_change now id fun _ => ⟨rfl, rfl⟩)
  | updateContextMetadata now later id metadata =>
      exact hkept (names_change now id fun _ => ⟨rfl, rfl⟩)
  | addTags now later id tags => exact hkept (names_change now id fun _ => ⟨rfl, rfl⟩)
  | deleteContext id => exact hkept (names_deleteContext id)
  | getContext now id => exact hkept (names_getContext now id)
  | get now depth ref key => exact hkept (names_get now depth ref key)

end Names

section WellFormed

theorem WellFormed.clear (h : e.WellFormed) : e.clear.WellFormed where
  known _ _ hc := by cases hc
  sound := by
    have hfold (refs : List ContextRef) (objects : List (RuntimeContext φ ν))
        (hs : ∀ ctx ∈ objects, ctx.Sound) :
        ∀ ctx ∈ refs.foldl (fun objects ref => objects.modify ref .deactivate) objects,
          ctx.Sound := by
      induction refs generalizing objects with
      | nil => exact hs
      | cons ref refs ih =>
          refine ih _ fun ctx hm => ?_
          have hupdate : (ContextEngine.update ⟨objects, .empty⟩ ref .deactivate).WellFormed :=
            WellFormed.update ⟨fun _ _ hc => (by cases hc), hs⟩ RuntimeContext.deactivate_harmless
          exact hupdate.sound ctx hm
    exact hfold e.contexts.values e.objects h.sound

theorem WellFormed.pruneExpiredContexts (h : e.WellFormed) (now : Str → Utc) :
    (e.pruneExpiredContexts now).WellFormed :=
  List.foldlRecOn _ _ h fun _ h found _ => h.handleExpiration found.1 found.2

end WellFormed

end ContextEngine

end YasinCore.Context
