import YasinCore.Context.Storage

namespace YasinCore.Context

open YasinCore.Library

variable {φ : Type} {timedelta : φ → Option Int}

-- The field of a payload; a missing one counts as None.
def payloadField (name : String) (payload : List (Str × Json φ)) : Json φ :=
  (Entries.lookup (.ofString name) payload).getD .null

-- A payload whose fields have the types that serialize gives them.
structure Record (φ : Type) where
  payload : List (Str × Json φ)
  id : (text? (payloadField "id" payload)).isSome
  parentId : (text? (payloadField "parent_id" payload)).isSome
  data : (dict? (payloadField "data" payload)).isSome
  metadata : (dict? (payloadField "metadata" payload)).isSome
  ttl : (number? (payloadField "ttl" payload)).isSome
  tags : (tags? (payloadField "tags" payload)).isSome
  createdAt : (text? (payloadField "created_at" payload)).isSome
  updatedAt : (text? (payloadField "updated_at" payload)).isSome
  expiresAt : (text? (payloadField "expires_at" payload)).isSome
  active : ∀ value, Entries.lookup (.ofString "active") payload = some value →
    ∃ flag, value = .bool flag

-- What a storage holds under its keys.
abbrev Stored (φ : Type) := Str → Option (Record φ)

inductive Reply
  | context (found : Option ContextRef)
  | has (found : Bool)
  | listed (ids : List Str)
  | nothing
  | raised
  deriving DecidableEq

-- What a call comes to, with the key and the payload that it hands to the storage.
structure Outcome (φ : Type) where
  reply : Reply
  engine : ContextEngine φ (Json φ)
  saved : Option (Str × List (Str × Json φ))

-- The calls that give access to contexts, with the readings of the clock that they make.
inductive EntryPoint (φ : Type)
  | getContext (now : Utc) (id : Str)
  | hasContext (now : Utc) (id : Str)
  | listContexts (now : Str → Utc) (activeOnly : Bool) (tags : Option (List Str))
  | updateContextData (now later : Utc) (id : Str) (data : Dict Str (Json φ))
  | updateContextMetadata (now later : Utc) (id : Str) (metadata : Dict Str (Json φ))
  | addTags (now later : Utc) (id : Str) (tags : List Str)
  | saveContextToStorage (now : Utc) (id keyPrefix : Str)
  | loadContextFromStorage (now : Utc) (uuid : Uuid) (id keyPrefix : Str)

namespace ContextEngine

def hasContext (now : Utc) (id : Str) (e : ContextEngine φ (Json φ)) :
    Bool × ContextEngine φ (Json φ) :=
  match e.find id with
  | some (ref, ctx) => if ctx.isExpired now then (false, e.handleExpiration ref ctx) else (true, e)
  | none => (false, e)

def listContexts (now : Str → Utc) (activeOnly : Bool) (tags : Option (List Str))
    (e : ContextEngine φ (Json φ)) : List Str × ContextEngine φ (Json φ) :=
  let e := e.pruneExpiredContexts now
  let kept := e.known.entries.filter fun entry =>
    (!activeOnly || entry.2.active) && (tags.getD []).all fun tag => tag ∈ entry.2.tags
  (kept.map Prod.fst, e)

def loadContextFromStorage (timedelta : φ → Option Int) (now : Utc) (uuid : Uuid)
    (id keyPrefix : Str) (storage : Stored φ) (e : ContextEngine φ (Json φ)) :
    Reply × ContextEngine φ (Json φ) :=
  match storage (keyPrefix ++ id) with
  | none => (.context none, e)
  | some record =>
      let loaded := e.loadContext timedelta now uuid record.payload
      match RuntimeContext.ofPayload timedelta now uuid record.payload with
      | some _ => (.context (some e.objects.length), loaded)
      | none => (if record.payload = [] then .context none else .raised, loaded)

end ContextEngine

namespace EntryPoint

def run (timedelta : φ → Option Int) (storage : Stored φ) (e : ContextEngine φ (Json φ)) :
    EntryPoint φ → Outcome φ
  | .getContext now id => ⟨.context (e.getContext now id).1, (e.getContext now id).2, none⟩
  | .hasContext now id => ⟨.has (e.hasContext now id).1, (e.hasContext now id).2, none⟩
  | .listContexts now activeOnly tags =>
      ⟨.listed (e.listContexts now activeOnly tags).1, (e.listContexts now activeOnly tags).2, none⟩
  | .updateContextData now later id data =>
      ⟨.context (e.getContext now id).1, e.updateContextData now later id data, none⟩
  | .updateContextMetadata now later id metadata =>
      ⟨.context (e.getContext now id).1, e.updateContextMetadata now later id metadata, none⟩
  | .addTags now later id tags =>
      ⟨.context (e.getContext now id).1, e.addTags now later id tags, none⟩
  | .saveContextToStorage now id keyPrefix =>
      ⟨.nothing, (e.contextPayload now id).2,
        (e.contextPayload now id).1.map fun payload => (keyPrefix ++ id, payload)⟩
  | .loadContextFromStorage now uuid id keyPrefix =>
      ⟨(e.loadContextFromStorage timedelta now uuid id keyPrefix storage).1,
        (e.loadContextFromStorage timedelta now uuid id keyPrefix storage).2, none⟩

-- The expired contexts that a call meets, each under the identifier that it goes by.
def MeetsExpired (timedelta : φ → Option Int) (storage : Stored φ) (e : ContextEngine φ (Json φ)) :
    EntryPoint φ → Str → RuntimeContext φ (Json φ) → Prop
  | .getContext now id, other, ctx | .hasContext now id, other, ctx
  | .updateContextData now _ id _, other, ctx | .updateContextMetadata now _ id _, other, ctx
  | .addTags now _ id _, other, ctx | .saveContextToStorage now id _, other, ctx =>
      other = id ∧ e.view id = some ctx ∧ ctx.isExpired now
  | .listContexts now _ _, other, ctx => e.view other = some ctx ∧ ctx.isExpired (now ctx.id)
  | .loadContextFromStorage now uuid id keyPrefix, other, ctx =>
      other = ctx.id ∧ ctx.isExpired now ∧ ∃ record, storage (keyPrefix ++ id) = some record ∧
        RuntimeContext.ofPayload timedelta now uuid record.payload = some ctx

-- What the call finds out about expired contexts suffices to let go of them: it loads none, and each
-- is under the identifier that one of them has for its own.
def Recognizes (timedelta : φ → Option Int) (storage : Stored φ) (e : ContextEngine φ (Json φ)) :
    EntryPoint φ → Prop
  | .loadContextFromStorage now uuid id keyPrefix => ∀ other ctx,
      ¬(loadContextFromStorage now uuid id keyPrefix).MeetsExpired timedelta storage e other ctx
  | entry => ∀ id ctx, entry.MeetsExpired timedelta storage e id ctx →
      ∃ other found, entry.MeetsExpired timedelta storage e other found ∧ found.id = id

end EntryPoint

def Reply.Gives : Reply → Str → Prop
  | .context found, _ => found.isSome
  | .has found, _ => found
  | .listed ids, id => id ∈ ids
  | .nothing, _ | .raised, _ => False

-- Every context object stays as it was, except that it may have become inactive.
def Keeps (e t : ContextEngine φ (Json φ)) : Prop :=
  ∀ (ref : ContextRef) (ctx : RuntimeContext φ (Json φ)), e.objects[ref]? = some ctx →
    (t.objects[ref]?).map RuntimeContext.deactivate = some ctx.deactivate

-- The context under the identifier is not handed out, nothing is changed or saved, and it is not
-- registered.
structure Outcome.Absent (e : ContextEngine φ (Json φ)) (outcome : Outcome φ) (id : Str) : Prop where
  unseen : ¬outcome.reply.Gives id
  unmodified : Keeps e outcome.engine
  unsaved : outcome.saved = none
  unregistered : id ∉ outcome.engine.contexts

section Expiration

variable {e t u : ContextEngine φ (Json φ)} {id : Str} {ref : ContextRef}
  {ctx : RuntimeContext φ (Json φ)} {now : Utc} {reply : Reply}

open ContextEngine

theorem Keeps.refl (e : ContextEngine φ (Json φ)) : Keeps e e := fun _ _ ho => by
  rw [ho, Option.map_some]

theorem Keeps.trans (h : Keeps e t) (h' : Keeps t u) : Keeps e u := by
  intro ref ctx ho
  obtain ⟨kept, hkept, hsame⟩ := Option.map_eq_some_iff.mp (h ref ctx ho)
  rw [h' ref kept hkept, hsame]

theorem keeps_handleExpiration (e : ContextEngine φ (Json φ)) (ref : ContextRef)
    (ctx : RuntimeContext φ (Json φ)) : Keeps e (e.handleExpiration ref ctx) := by
  unfold handleExpiration
  split
  · intro other old ho
    have hupdated : (e.update ref .deactivate).objects[other]? =
        if ref = other then (e.objects[other]?).map .deactivate else e.objects[other]? :=
      objects_update other
    rw [ho, Option.map_some] at hupdated
    dsimp only
    rw [hupdated]
    split <;> rfl
  · exact .refl e

theorem contexts_handleExpiration (e : ContextEngine φ (Json φ)) (ref : ContextRef)
    (ctx : RuntimeContext φ (Json φ)) :
    (e.handleExpiration ref ctx).contexts = e.contexts.erase ctx.id := by
  unfold handleExpiration
  split
  · rfl
  · rename_i hnot
    exact (Dict.erase_of_notMem hnot).symm

-- An expired context is let go of under its own identifier, which need not be the one that it is
-- registered under.
theorem absent_handleExpiration_iff (hf : e.find id = some (ref, ctx)) (hreply : ¬reply.Gives id) :
    Outcome.Absent e ⟨reply, e.handleExpiration ref ctx, none⟩ id ↔ ctx.id = id := by
  have hid : id ∈ e.contexts := (Dict.mem_iff _ _).mpr ⟨ref, (find_eq_some.mp hf).1⟩
  have hmem : id ∈ (e.handleExpiration ref ctx).contexts ↔ ctx.id ≠ id := by
    rw [contexts_handleExpiration, Dict.mem_erase]
    exact ⟨fun h => h.1.symm, fun h => ⟨h.symm, hid⟩⟩
  constructor
  · intro h
    by_contra hne
    exact h.unregistered (hmem.mpr hne)
  · intro hown
    exact ⟨hreply, keeps_handleExpiration e ref ctx, rfl, fun h => hmem.mp h hown⟩

-- What the calls that look a context up have in common.
theorem lookup_absent_iff {outcome : Outcome φ}
    (h : ∀ ref ctx, e.find id = some (ref, ctx) → ctx.isExpired now → ∃ reply : Reply,
      ¬reply.Gives id ∧ outcome = ⟨reply, e.handleExpiration ref ctx, none⟩) :
    (∀ other ctx, other = id ∧ e.view id = some ctx ∧ ctx.isExpired now → outcome.Absent e other) ↔
      ∀ other ctx, other = id ∧ e.view id = some ctx ∧ ctx.isExpired now →
        ∃ name found, (name = id ∧ e.view id = some found ∧ found.isExpired now) ∧
          found.id = other := by
  constructor
  · rintro habsent other ctx ⟨rfl, hv, hx⟩
    obtain ⟨ref, hf⟩ := find_of_view hv
    obtain ⟨reply, hreply, ho⟩ := h ref ctx hf hx
    have hown := habsent other ctx ⟨rfl, hv, hx⟩
    rw [ho, absent_handleExpiration_iff hf hreply] at hown
    exact ⟨other, ctx, ⟨rfl, hv, hx⟩, hown⟩
  · rintro hknown other ctx ⟨rfl, hv, hx⟩
    obtain ⟨ref, hf⟩ := find_of_view hv
    obtain ⟨reply, hreply, ho⟩ := h ref ctx hf hx
    obtain ⟨name, found, ⟨-, hv', -⟩, hown⟩ := hknown other ctx ⟨rfl, hv, hx⟩
    rw [hv] at hv'
    cases hv'
    rw [ho, absent_handleExpiration_iff hf hreply]
    exact hown

theorem getContext_expired (hf : e.find id = some (ref, ctx)) (hx : ctx.isExpired now) :
    e.getContext now id = (none, e.handleExpiration ref ctx) := by
  rw [getContext, hf]
  exact if_pos hx

theorem change_expired {f : RuntimeContext φ (Json φ) → RuntimeContext φ (Json φ)}
    (hf : e.find id = some (ref, ctx)) (hx : ctx.isExpired now) :
    e.change now id f = e.handleExpiration ref ctx := by
  rw [change, getContext_expired hf hx]

theorem contextPayload_expired (hf : e.find id = some (ref, ctx)) (hx : ctx.isExpired now) :
    e.contextPayload now id = (none, e.handleExpiration ref ctx) := by
  rw [contextPayload, getContext_expired hf hx]

end Expiration

section Pruning

variable {e : ContextEngine φ (Json φ)} {id : Str} {now : Str → Utc}

open ContextEngine

theorem foldl_handleExpiration (expired : List (ContextRef × RuntimeContext φ (Json φ)))
    (e : ContextEngine φ (Json φ)) :
    Keeps e (expired.foldl (fun e found => e.handleExpiration found.1 found.2) e) ∧
      (expired.foldl (fun e found => e.handleExpiration found.1 found.2) e).contexts =
        (expired.map fun found => found.2.id).foldl Dict.erase e.contexts := by
  induction expired generalizing e with
  | nil => exact ⟨.refl e, rfl⟩
  | cons found expired ih =>
      obtain ⟨hkeeps, hcontexts⟩ := ih (e.handleExpiration found.1 found.2)
      refine ⟨(keeps_handleExpiration e found.1 found.2).trans hkeeps, ?_⟩
      rw [List.foldl_cons, hcontexts, contexts_handleExpiration]
      rfl

-- What is pruned are the identifiers that the expired contexts have for their own.
theorem mem_pruneExpiredContexts : id ∈ (e.pruneExpiredContexts now).contexts ↔ id ∈ e.contexts ∧
    ¬∃ other found, (e.view other = some found ∧ found.isExpired (now found.id)) ∧
      found.id = id := by
  have hexpired : id ∈ ((e.contexts.keys.filterMap e.find).filter fun found =>
      found.2.isExpired (now found.2.id)).map (fun found => found.2.id) ↔
        ∃ other found, (e.view other = some found ∧ found.isExpired (now found.id)) ∧
          found.id = id := by
    simp only [List.mem_map, List.mem_filter, List.mem_filterMap]
    constructor
    · rintro ⟨⟨ref, ctx⟩, ⟨⟨other, -, hf⟩, hx⟩, hid⟩
      exact ⟨other, ctx, ⟨view_of_find hf, hx⟩, hid⟩
    · rintro ⟨other, ctx, ⟨hv, hx⟩, hid⟩
      obtain ⟨ref, hf⟩ := find_of_view hv
      have hkey := (Dict.mem_keys_iff _ _).mpr ⟨ref, (find_eq_some.mp hf).1⟩
      exact ⟨(ref, ctx), ⟨⟨other, hkey, hf⟩, hx⟩, hid⟩
  rw [pruneExpiredContexts, (foldl_handleExpiration _ e).2, Dict.foldl_erase, Dict.mem_iff,
    Dict.mem_iff, ← hexpired]
  simp only [Dict.get?_filter, Option.filter_eq_some_iff, decide_eq_true_eq, exists_and_right]

theorem keeps_pruneExpiredContexts (e : ContextEngine φ (Json φ)) (now : Str → Utc) :
    Keeps e (e.pruneExpiredContexts now) := (foldl_handleExpiration _ e).1

-- Only registered contexts are listed.
theorem mem_contexts_of_listed {activeOnly : Bool} {tags : Option (List Str)}
    (h : id ∈ (e.listContexts now activeOnly tags).1) :
    id ∈ (e.pruneExpiredContexts now).contexts := by
  simp only [listContexts, List.mem_map, List.mem_filter] at h
  obtain ⟨⟨_, ctx⟩, ⟨hm, -⟩, rfl⟩ := h
  rw [Dict.mem_entries_iff, known, Dict.get?_filterMap] at hm
  obtain ⟨ref, hc, -⟩ := Option.bind_eq_some_iff.mp hm
  exact (Dict.mem_iff _ _).mpr ⟨ref, hc⟩

theorem listContexts_absent_iff {activeOnly : Bool} {tags : Option (List Str)}
    (hid : id ∈ e.contexts) : Outcome.Absent e ⟨.listed (e.listContexts now activeOnly tags).1,
        (e.listContexts now activeOnly tags).2, none⟩ id ↔
      ∃ other found, (e.view other = some found ∧ found.isExpired (now found.id)) ∧
        found.id = id := by
  constructor
  · intro h
    by_contra hnone
    exact h.unregistered (mem_pruneExpiredContexts.mpr ⟨hid, hnone⟩)
  · intro hknown
    have hgone : id ∉ (e.pruneExpiredContexts now).contexts := fun h =>
      (mem_pruneExpiredContexts.mp h).2 hknown
    exact ⟨fun h => hgone (mem_contexts_of_listed h), keeps_pruneExpiredContexts e now, rfl, hgone⟩

end Pruning

section Loading

variable {e : ContextEngine φ (Json φ)} {now : Utc} {uuid : Uuid} {id keyPrefix : Str}
  {storage : Stored φ} {record : Record φ} {ctx : RuntimeContext φ (Json φ)}

-- Whatever is loaded is handed out.
theorem loadContextFromStorage_gives (hs : storage (keyPrefix ++ id) = some record)
    (hc : RuntimeContext.ofPayload timedelta now uuid record.payload = some ctx) (other : Str) :
    (e.loadContextFromStorage timedelta now uuid id keyPrefix storage).1.Gives other := by
  simp only [ContextEngine.loadContextFromStorage, hs, hc]
  rfl

end Loading

-- In an engine that knows its contexts under their own identifiers, only a load can go wrong.
theorem recognizes_of_wellFormed {e : ContextEngine φ (Json φ)} (h : e.WellFormed)
    (storage : Stored φ) {entry : EntryPoint φ}
    (hload : ∀ now uuid id keyPrefix, entry ≠ .loadContextFromStorage now uuid id keyPrefix) :
    entry.Recognizes timedelta storage e := by
  have hown {id : Str} {ctx : RuntimeContext φ (Json φ)} (hv : e.view id = some ctx) :
      ctx.id = id := by
    obtain ⟨ref, hf⟩ := ContextEngine.find_of_view hv
    exact h.find_id hf
  cases entry with
  | loadContextFromStorage now uuid id keyPrefix => exact (hload now uuid id keyPrefix rfl).elim
  | listContexts now activeOnly tags => exact fun id ctx hm => ⟨id, ctx, hm, hown hm.1⟩
  | getContext now id | hasContext now id | updateContextData now later id data
  | updateContextMetadata now later id metadata | addTags now later id tags
  | saveContextToStorage now id keyPrefix =>
      rintro other ctx ⟨rfl, hv, hx⟩
      exact ⟨other, ctx, ⟨rfl, hv, hx⟩, hown hv⟩

-- The record of a context that has come to its end.
def endedRecord : Record Unit where
  payload := [(.ofString "id", .str (.ofString "session")),
    (.ofString "expires_at", .str (.ofString "0001-01-01T00:00:00+00:00"))]
  id := rfl
  parentId := rfl
  data := rfl
  metadata := rfl
  ttl := rfl
  tags := rfl
  createdAt := rfl
  updatedAt := rfl
  expiresAt := rfl
  active _ h := by cases h

def endedStorage : Stored Unit := fun key =>
  if key = .ofString "context:session" then some endedRecord else none

def loadSession : EntryPoint Unit :=
  .loadContextFromStorage startOfTime ⟨.ofString "session", session_ne_nil⟩ (.ofString "session")
    (.ofString "context:")

end YasinCore.Context
