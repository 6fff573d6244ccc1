import YasinCore.Context.Engine

namespace YasinCore.Context

open YasinCore.Library

variable {φ ν : Type}

-- What every context that an engine makes keeps to.
structure RuntimeContext.Sound (ctx : RuntimeContext φ ν) : Prop where
  id : ctx.id ≠ []
  createdAt : ctx.createdAt ≠ []
  updatedAt : ctx.updatedAt ≠ []
  expiresAt : ctx.expiresAt ≠ some []
  ttl : ctx.expiresAt = none → ctx.ttl = none

-- A change that leaves alone what the engine goes by.
structure Harmless (f : RuntimeContext φ ν → RuntimeContext φ ν) : Prop where
  id : ∀ ctx, (f ctx).id = ctx.id
  sound : ∀ ctx, ctx.Sound → (f ctx).Sound

namespace RuntimeContext

variable {ctx : RuntimeContext φ ν} {now : Utc}

theorem isoformat_ne_nil (d : DateTime) : d.isoformat ≠ [] := List.cons_ne_nil _ _

theorem deactivate_harmless : Harmless (deactivate : RuntimeContext φ ν → _) :=
  ⟨fun _ => rfl, fun _ h => ⟨h.id, h.createdAt, h.updatedAt, h.expiresAt, h.ttl⟩⟩

theorem set_harmless (key : Str) (value : ν) :
    Harmless (set now key value : RuntimeContext φ ν → _) :=
  ⟨fun _ => rfl, fun _ h => ⟨h.id, h.createdAt, isoformat_ne_nil _, h.expiresAt, h.ttl⟩⟩

theorem delete_harmless (key : Str) : Harmless (delete now key : RuntimeContext φ ν → _) :=
  ⟨fun _ => rfl, fun _ h => ⟨h.id, h.createdAt, isoformat_ne_nil _, h.expiresAt, h.ttl⟩⟩

theorem clear_harmless : Harmless (clear now : RuntimeContext φ ν → _) :=
  ⟨fun _ => rfl, fun _ h => ⟨h.id, h.createdAt, isoformat_ne_nil _, h.expiresAt, h.ttl⟩⟩

theorem updateData_harmless (data : Dict Str ν) :
    Harmless (updateData now data : RuntimeContext φ ν → _) :=
  ⟨fun _ => rfl, fun _ h => ⟨h.id, h.createdAt, isoformat_ne_nil _, h.expiresAt, h.ttl⟩⟩

theorem updateMetadata_harmless (metadata : Dict Str ν) :
    Harmless (updateMetadata now metadata : RuntimeContext φ ν → _) :=
  ⟨fun _ => rfl, fun _ h => ⟨h.id, h.createdAt, isoformat_ne_nil _, h.expiresAt, h.ttl⟩⟩

theorem addTags_harmless (tags : List Str) :
    Harmless (addTags now tags : RuntimeContext φ ν → _) :=
  ⟨fun _ => rfl, fun _ h => ⟨h.id, h.createdAt, isoformat_ne_nil _, h.expiresAt, h.ttl⟩⟩

theorem given_ne_nil {text : Option Str} : given text ≠ some [] := by
  intro h
  have hne := (Option.filter_eq_some_iff.mp h).2
  simp at hne

theorem getD_given_ne_nil {text : Option Str} {other : Str} (h : other ≠ []) :
    (given text).getD other ≠ [] := by
  cases hg : given text with
  | none => exact h
  | some text =>
      rintro rfl
      exact given_ne_nil hg

-- A context without an end has no lifetime.
theorem expiry_spec {timedelta : φ → Option Int} {createdAt : Str} {ttl : Option (Number φ)}
    {expiresAt expires : Option Str} (h : expiry timedelta now createdAt ttl expiresAt = .ok expires)
    (hne : expiresAt ≠ some []) : expires ≠ some [] ∧ (expires = none → ttl = none) := by
  cases expiresAt with
  | some text =>
      cases h
      exact ⟨hne, nofun⟩
  | none =>
      cases ttl with
      | none =>
          cases h
          exact ⟨nofun, fun _ => rfl⟩
      | some ttl =>
          simp only [expiry] at h
          split at h
          · cases h
            exact ⟨fun h => isoformat_ne_nil _ (Option.some.inj h), nofun⟩
          · cases h

theorem init_sound {timedelta : φ → Option Int} {uuid : Uuid} {contextId parentId : Option Str}
    {data metadata : Option (Dict Str ν)} {ttl : Option (Number φ)} {tags : Option (List Str)}
    {createdAt updatedAt expiresAt : Option Str}
    (h : init timedelta now uuid contextId parentId data metadata ttl tags createdAt updatedAt
      expiresAt = .ok ctx) : ctx.Sound := by
  unfold init at h
  dsimp only at h
  cases he : expiry timedelta now ((given createdAt).getD now.val.isoformat) ttl (given expiresAt) with
  | error e =>
      rw [he] at h
      cases h
  | ok expires =>
      rw [he] at h
      cases h
      obtain ⟨hexpires, httl⟩ := expiry_spec he given_ne_nil
      exact ⟨getD_given_ne_nil uuid.property, getD_given_ne_nil (isoformat_ne_nil _),
        getD_given_ne_nil (isoformat_ne_nil _), hexpires, httl⟩

end RuntimeContext

namespace ContextEngine

-- The engine knows its contexts under their own identifiers.
structure WellFormed (e : ContextEngine φ ν) : Prop where
  known : ∀ id ref, e.contexts.get? id = some ref → ∃ ctx, e.objects[ref]? = some ctx ∧ ctx.id = id
  sound : ∀ ctx ∈ e.objects, ctx.Sound

-- The context behind an identifier.
def view (e : ContextEngine φ ν) (id : Str) : Option (RuntimeContext φ ν) := (e.find id).map Prod.snd

variable {e : ContextEngine φ ν} {id other : Str} {ref : ContextRef} {ctx : RuntimeContext φ ν}
  {now : Utc} {f : RuntimeContext φ ν → RuntimeContext φ ν}

theorem find_eq_some : e.find id = some (ref, ctx) ↔
    e.contexts.get? id = some ref ∧ e.objects[ref]? = some ctx := by
  simp only [find, Option.bind_eq_some_iff, Option.map_eq_some_iff, Prod.mk.injEq]
  constructor
  · rintro ⟨found, hf, seen, hs, rfl, rfl⟩
    exact ⟨hf, hs⟩
  · rintro ⟨hf, hs⟩
    exact ⟨ref, hf, ctx, hs, rfl, rfl⟩

theorem view_eq_some : e.view id = some ctx ↔
    ∃ ref, e.contexts.get? id = some ref ∧ e.objects[ref]? = some ctx := by
  simp only [view, Option.map_eq_some_iff, Prod.exists, find_eq_some]
  constructor
  · rintro ⟨ref, _, h, rfl⟩
    exact ⟨ref, h⟩
  · rintro ⟨ref, h⟩
    exact ⟨ref, ctx, h, rfl⟩

theorem WellFormed.find_id (h : e.WellFormed) (hf : e.find id = some (ref, ctx)) : ctx.id = id := by
  obtain ⟨hc, ho⟩ := find_eq_some.mp hf
  obtain ⟨found, hfound, hid⟩ := h.known id ref hc
  rw [ho] at hfound
  cases hfound
  exact hid

theorem WellFormed.lt (h : e.WellFormed) (hc : e.contexts.get? id = some ref) :
    ref < e.objects.length := by
  obtain ⟨ctx, ho, -⟩ := h.known id ref hc
  exact (List.getElem?_eq_some_iff.mp ho).1

-- No context is known under two identifiers.
theorem WellFormed.injective (h : e.WellFormed) (hid : e.contexts.get? id = some ref)
    (hother : e.contexts.get? other = some ref) : other = id := by
  obtain ⟨ctx, ho, rfl⟩ := h.known id ref hid
  obtain ⟨found, hfound, rfl⟩ := h.known other ref hother
  rw [ho] at hfound
  cases hfound
  rfl

theorem WellFormed.empty : (empty : ContextEngine φ ν).WellFormed :=
  ⟨fun _ _ h => by simp [ContextEngine.empty] at h, fun _ h => by cases h⟩

theorem objects_update (other : ContextRef) : (e.update ref f).objects[other]? =
    if ref = other then (e.objects[other]?).map f else e.objects[other]? := by
  rw [update, List.getElem?_modify]
  split <;> simp

theorem WellFormed.update (h : e.WellFormed) (hf : Harmless f) : (e.update ref f).WellFormed where
  known id found hc := by
    obtain ⟨ctx, ho, hid⟩ := h.known id found hc
    rw [objects_update, ho]
    split
    · exact ⟨f ctx, rfl, (hf.id ctx).trans hid⟩
    · exact ⟨ctx, rfl, hid⟩
  sound ctx hm := by
    obtain ⟨found, hfound⟩ := List.mem_iff_getElem?.mp hm
    rw [objects_update] at hfound
    split at hfound
    · obtain ⟨old, hold, rfl⟩ := Option.map_eq_some_iff.mp hfound
      exact hf.sound old (h.sound old (List.mem_of_getElem? hold))
    · exact h.sound ctx (List.mem_of_getElem? hfound)

theorem WellFormed.forget (h : e.WellFormed) (id : Str) :
    ({ e with contexts := e.contexts.erase id } : ContextEngine φ ν).WellFormed where
  known other found hc := by
    rw [Dict.get?_erase] at hc
    split at hc
    · cases hc
    · exact h.known other found hc
  sound := h.sound

theorem WellFormed.add (h : e.WellFormed) (hs : ctx.Sound) : (e.add ctx.id ctx).WellFormed where
  known other found hc := by
    rw [ContextEngine.add, Dict.get?_set] at hc
    split at hc
    · rename_i ho
      cases hc
      exact ⟨ctx, List.getElem?_concat_length, ho.symm⟩
    · obtain ⟨seen, hseen, hid⟩ := h.known other found hc
      exact ⟨seen, (List.getElem?_append_left (h.lt hc)).trans hseen, hid⟩
  sound seen hm := by
    rcases List.mem_append.mp hm with hm | hm
    · exact h.sound seen hm
    · rw [List.mem_singleton.mp hm]
      exact hs

-- What a lookup can do: it finds a context that is not expired, it finds none, or it drops one that
-- is expired.
theorem getContext_cases (now : Utc) (id : Str) (e : ContextEngine φ ν) :
    (∃ ref ctx, e.find id = some (ref, ctx) ∧ ctx.isExpired now = false ∧
      e.getContext now id = (some ref, e)) ∨
    (e.find id = none ∧ e.getContext now id = (none, e)) ∨
    ∃ ref ctx, e.find id = some (ref, ctx) ∧ ctx.isExpired now = true ∧
      e.getContext now id = (none, e.handleExpiration ref ctx) := by
  unfold getContext
  cases hf : e.find id with
  | none => exact .inr (.inl ⟨rfl, rfl⟩)
  | some found =>
      obtain ⟨ref, ctx⟩ := found
      cases hx : ctx.isExpired now with
      | false => exact .inl ⟨ref, ctx, rfl, hx, by simp [hx]⟩
      | true => exact .inr (.inr ⟨ref, ctx, rfl, hx, by simp [hx]⟩)

theorem WellFormed.handleExpiration (h : e.WellFormed) (ref : ContextRef)
    (ctx : RuntimeContext φ ν) : (e.handleExpiration ref ctx).WellFormed := by
  unfold ContextEngine.handleExpiration
  split
  · exact (h.update RuntimeContext.deactivate_harmless).forget ctx.id
  · exact h

theorem WellFormed.getContext (h : e.WellFormed) (now : Utc) (id : Str) :
    (e.getContext now id).2.WellFormed := by
  rcases getContext_cases now id e with ⟨ref, ctx, _, _, he⟩ | ⟨_, he⟩ | ⟨ref, ctx, _, _, he⟩
  · rw [he]
    exact h
  · rw [he]
    exact h
  · rw [he]
    exact h.handleExpiration ref ctx

theorem WellFormed.deleteContext (h : e.WellFormed) (id : Str) :
    (e.deleteContext id).WellFormed := by
  unfold ContextEngine.deleteContext
  split
  · exact (h.update RuntimeContext.deactivate_harmless).forget id
  · exact h

theorem WellFormed.change (h : e.WellFormed) (hf : Harmless f) (now : Utc) (id : Str) :
    (e.change now id f).WellFormed := by
  have hg := h.getContext now id
  unfold ContextEngine.change
  split
  · rename_i ref t heq
    rw [heq] at hg
    exact hg.update hf
  · rename_i t heq
    rw [heq] at hg
    exact hg

theorem WellFormed.get (h : e.WellFormed) (now : Nat → Utc) (depth : Nat) (ref : ContextRef)
    (key : Str) : (e.get now depth ref key).2.WellFormed := by
  induction depth generalizing ref e with
  | zero => exact h
  | succ depth ih =>
      unfold ContextEngine.get
      split
      · exact h
      · split
        · exact h
        · split
          · exact h
          · rename_i parentId _
            have hg := h.getContext (now depth) parentId
            split
            · rename_i parent t heq
              rw [heq] at hg
              exact ih hg parent
            · rename_i t heq
              rw [heq] at hg
              exact hg

theorem WellFormed.createContext (h : e.WellFormed) {timedelta : φ → Option Int} {uuid : Uuid}
    {parentId : Option Str} {data metadata : Option (Dict Str ν)} {ttl : Option (Number φ)}
    {tags : Option (List Str)} {t : ContextEngine φ ν}
    (hc : e.createContext timedelta now uuid data parentId metadata ttl tags = .ok t) :
    t.WellFormed := by
  unfold ContextEngine.createContext at hc
  cases hi : RuntimeContext.init timedelta now uuid none parentId data metadata ttl tags none none
    none with
  | error err =>
      rw [hi] at hc
      cases hc
  | ok ctx =>
      rw [hi] at hc
      cases hc
      exact h.add (RuntimeContext.init_sound hi)

theorem WellFormed.perform (h : e.WellFormed) (timedelta : φ → Option Int) (act : Action φ ν) :
    (e.perform timedelta act).WellFormed := by
  cases act with
  | createContext now uuid data parentId metadata ttl tags =>
      unfold ContextEngine.perform
      dsimp only
      split
      · rename_i t heq
        exact h.createContext heq
      · exact h
  | set now ref key value => exact h.update (RuntimeContext.set_harmless key value)
  | delete now ref key => exact h.update (RuntimeContext.delete_harmless key)
  | clear now ref => exact h.update RuntimeContext.clear_harmless
  | updateContextData now later id data =>
      exact h.change (RuntimeContext.updateData_harmless data) now id
  | updateContextMetadata now later id metadata =>
      exact h.change (RuntimeContext.updateMetadata_harmless metadata) now id
  | addTags now later id tags => exact h.change (RuntimeContext.addTags_harmless tags) now id
  | deleteContext id => exact h.deleteContext id
  | getContext now id => exact h.getContext now id
  | get now depth ref key => exact h.get now depth ref key

-- Every engine that calls have made.
theorem wellFormed_performAll (timedelta : φ → Option Int) (acts : List (Action φ ν)) :
    (performAll timedelta acts).WellFormed :=
  List.foldlRecOn acts (perform timedelta) .empty fun _ h act _ => h.perform timedelta act

section Views

theorem view_eq (e : ContextEngine φ ν) (id : Str) :
    e.view id = (e.contexts.get? id).bind fun ref => e.objects[ref]? := by
  rw [view, find]
  cases e.contexts.get? id with
  | none => rfl
  | some ref => cases h : e.objects[ref]? <;> simp [h]

theorem view_of_find (h : e.find id = some (ref, ctx)) : e.view id = some ctx := by
  rw [view, h, Option.map_some]

theorem find_eq_none (e : ContextEngine φ ν) (id : Str) : e.find id = none ↔ e.view id = none := by
  rw [view, Option.map_eq_none_iff]

-- The engine knows the identifier of exactly the contexts that it shows.
theorem WellFormed.view_eq_none (h : e.WellFormed) :
    e.view id = none ↔ e.contexts.get? id = none := by
  rw [view_eq]
  cases hc : e.contexts.get? id with
  | none => simp
  | some ref =>
      obtain ⟨ctx, ho, -⟩ := h.known id ref hc
      simp [ho]

theorem find_of_view (h : e.view id = some ctx) : ∃ ref, e.find id = some (ref, ctx) := by
  obtain ⟨ref, hc, ho⟩ := view_eq_some.mp h
  exact ⟨ref, find_eq_some.mpr ⟨hc, ho⟩⟩

theorem WellFormed.view_add (h : e.WellFormed) (id : Str) (ctx : RuntimeContext φ ν) (other : Str) :
    (e.add id ctx).view other = if other = id then some ctx else e.view other := by
  rw [view_eq, view_eq, ContextEngine.add, Dict.get?_set]
  split
  · exact List.getElem?_concat_length
  · cases hc : e.contexts.get? other with
    | none => rfl
    | some ref => exact List.getElem?_append_left (h.lt hc)

-- Dropping a context changes the view of no other.
theorem WellFormed.view_drop (h : e.WellFormed) (hc : e.contexts.get? id = some ref) (other : Str) :
    ({ e.update ref f with contexts := e.contexts.erase id } : ContextEngine φ ν).view other =
      if other = id then none else e.view other := by
  rw [view_eq, view_eq, Dict.get?_erase]
  split
  · rfl
  · rename_i hne
    cases ho : e.contexts.get? other with
    | none => rfl
    | some found =>
        have hfound : ref ≠ found := by
          rintro rfl
          exact hne (h.injective hc ho)
        exact (objects_update found).trans (if_neg hfound)

theorem WellFormed.handleExpiration_eq (h : e.WellFormed) (hf : e.find id = some (ref, ctx)) :
    e.handleExpiration ref ctx = { e.update ref .deactivate with contexts := e.contexts.erase id } := by
  have hmem : ctx.id ∈ e.contexts := by
    rw [h.find_id hf]
    exact (Dict.mem_iff _ _).mpr ⟨ref, (find_eq_some.mp hf).1⟩
  rw [ContextEngine.handleExpiration, if_pos hmem, h.find_id hf]

theorem WellFormed.view_handleExpiration (h : e.WellFormed) (hf : e.find id = some (ref, ctx))
    (other : Str) : (e.handleExpiration ref ctx).view other =
      if other = id then none else e.view other := by
  rw [h.handleExpiration_eq hf]
  exact h.view_drop (find_eq_some.mp hf).1 other

end Views

end ContextEngine

end YasinCore.Context
