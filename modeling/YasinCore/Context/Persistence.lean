import YasinCore.Context.Engine.Lemmas
import YasinCore.Library.Simulation
import YasinCore.Library.Transition
import YasinCore.Storage.Backend

namespace YasinCore.Context

open YasinCore.Library YasinCore.Storage

variable {φ : Type} {timedelta : φ → Option Int}

def textJson : Option Str → Json φ
  | none => .null
  | some text => .str text

def numberJson : Option (Number φ) → Json φ
  | none => .null
  | some (.int value) => .int value
  | some (.float value) => .float value

-- The readers of a payload. What no payload of a context holds is not read.
def text? : Json φ → Option (Option Str)
  | .null => some none
  | .str text => some (some text)
  | _ => none

def number? : Json φ → Option (Option (Number φ))
  | .null => some none
  | .int value => some (some (.int value))
  | .float value => some (some (.float value))
  | _ => none

def dict? : Json φ → Option (Option (Dict Str (Json φ)))
  | .null => some none
  | .dict entries => some (some (.ofEntries entries))
  | _ => none

def tags? : Json φ → Option (Option (List Str))
  | .null => some none
  | .list items => ((items.mapM text?).bind fun texts => texts.mapM id).map some
  | _ => none

namespace RuntimeContext

def serialize (ctx : RuntimeContext φ (Json φ)) : List (Str × Json φ) :=
  [(.ofString "id", .str ctx.id), (.ofString "parent_id", textJson ctx.parentId),
    (.ofString "metadata", .dict ctx.metadata.entries), (.ofString "data", .dict ctx.data.entries),
    (.ofString "active", .bool ctx.active), (.ofString "ttl", numberJson ctx.ttl),
    (.ofString "tags", .list (ctx.tags.map .str)), (.ofString "created_at", .str ctx.createdAt),
    (.ofString "updated_at", .str ctx.updatedAt), (.ofString "expires_at", textJson ctx.expiresAt)]

def deserialize (timedelta : φ → Option Int) (now : Utc) (uuid : Uuid)
    (payload : List (Str × Json φ)) : Option (RuntimeContext φ (Json φ)) := do
  let field (name : String) : Json φ := (Entries.lookup (.ofString name) payload).getD .null
  let contextId ← text? (field "id")
  let parentId ← text? (field "parent_id")
  let data ← dict? (field "data")
  let metadata ← dict? (field "metadata")
  let ttl ← number? (field "ttl")
  let tags ← tags? (field "tags")
  let createdAt ← text? (field "created_at")
  let updatedAt ← text? (field "updated_at")
  let expiresAt ← text? (field "expires_at")
  let ctx ← (init timedelta now uuid contextId parentId data metadata ttl tags createdAt updatedAt
    expiresAt).toOption
  match Entries.lookup (.ofString "active") payload with
  | none => return ctx
  | some (.bool active) => return { ctx with active := active }
  | some _ => none

end RuntimeContext

namespace ContextEngine

def known {ν : Type} (e : ContextEngine φ ν) : Dict Str (RuntimeContext φ ν) :=
  e.contexts.filterMap fun _ ref => e.objects[ref]?

def serialized (e : ContextEngine φ (Json φ)) : Dict Str (Json φ) :=
  e.known.mapValues fun _ ctx => .dict ctx.serialize

def saveAllContextsToStorage (backend : Backend φ) (keyPrefix : Str)
    (e : ContextEngine φ (Json φ)) (storage : backend.State) : Option backend.State :=
  backend.set keyPrefix (.dict e.serialized.entries) storage

def restore (timedelta : φ → Option Int) (now : Str → Utc) (uuid : Str → Uuid)
    (e : ContextEngine φ (Json φ)) : List (Str × Json φ) → Option (ContextEngine φ (Json φ))
  | [] => some e
  | (id, .dict payload) :: rest => do
      let ctx ← RuntimeContext.deserialize timedelta (now id) (uuid id) payload
      restore timedelta now uuid (e.add id ctx) rest
  | _ :: _ => none

-- The reading of the clock and the generated identifier that each payload finds.
def loadAllContextsFromStorage (backend : Backend φ) (timedelta : φ → Option Int)
    (now : Str → Utc) (uuid : Str → Uuid) (keyPrefix : Str) (storage : backend.State)
    (e : ContextEngine φ (Json φ)) : Option (ContextEngine φ (Json φ)) :=
  match backend.get keyPrefix storage with
  | some (.dict entries) => restore timedelta now uuid e entries
  | some _ => some e
  | none => none

end ContextEngine

section RoundTrip

theorem tags?_serialize (tags : List Str) :
    tags? (.list (tags.map .str) : Json φ) = some (some tags) := by
  have htexts : (tags.map Json.str : List (Json φ)).mapM text? = some (tags.map some) := by
    induction tags with
    | nil => rfl
    | cons tag tags ih => simp [text?, ih]
  have hid : (tags.map some).mapM id = some tags := by
    clear htexts
    induction tags with
    | nil => rfl
    | cons tag tags ih => simp [ih]
  rw [tags?, htexts, Option.bind_some, hid]
  rfl

theorem text?_textJson (text : Option Str) : text? (textJson text : Json φ) = some text := by
  cases text <;> rfl

theorem number?_numberJson (n : Option (Number φ)) : number? (numberJson n) = some n := by
  rcases n with _ | n | n <;> rfl

theorem given_some {text : Str} (h : text ≠ []) : given (some text) = some text := by
  simp [given, h]

-- What serialize writes, deserialize reads.
theorem RuntimeContext.Sound.deserialize_serialize {ctx : RuntimeContext φ (Json φ)}
    (h : ctx.Sound) (timedelta : φ → Option Int) (now : Utc) (uuid : Uuid) :
    RuntimeContext.deserialize timedelta now uuid ctx.serialize = some ctx := by
  have hread : RuntimeContext.deserialize timedelta now uuid ctx.serialize = (do
      let parentId ← text? (textJson ctx.parentId : Json φ)
      let ttl ← number? (numberJson ctx.ttl)
      let tags ← tags? (.list (ctx.tags.map .str) : Json φ)
      let expiresAt ← text? (textJson ctx.expiresAt : Json φ)
      let loaded ← (RuntimeContext.init timedelta now uuid (some ctx.id) parentId
        (some (.ofEntries ctx.data.entries)) (some (.ofEntries ctx.metadata.entries)) ttl tags
        (some ctx.createdAt) (some ctx.updatedAt) expiresAt).toOption
      return { loaded with active := ctx.active }) := rfl
  have hexpiry : RuntimeContext.expiry timedelta now ctx.createdAt ctx.ttl (given ctx.expiresAt) =
      .ok ctx.expiresAt := by
    cases he : ctx.expiresAt with
    | none => rw [h.ttl he, given, Option.filter_none, RuntimeContext.expiry]
    | some text =>
        have hne : text ≠ [] := fun ht => h.expiresAt (by rw [he, ht])
        rw [given_some hne, RuntimeContext.expiry]
  have hinit : RuntimeContext.init timedelta now uuid (some ctx.id) ctx.parentId (some ctx.data)
      (some ctx.metadata) ctx.ttl (some ctx.tags) (some ctx.createdAt) (some ctx.updatedAt)
      ctx.expiresAt = .ok { ctx with active := true } := by
    rw [RuntimeContext.init, given_some h.createdAt, given_some h.updatedAt, given_some h.id,
      Option.getD_some, hexpiry]
    rfl
  rw [hread, text?_textJson, text?_textJson, number?_numberJson, tags?_serialize,
    Dict.ofEntries_entries, Dict.ofEntries_entries]
  simp only [Option.bind_eq_bind, Option.bind_some, hinit]
  rfl

end RoundTrip

-- Two engines with the same contexts, whatever objects stand for them.
structure Alike (e e' : ContextEngine φ (Json φ)) : Prop where
  left : e.WellFormed
  right : e'.WellFormed
  view : ∀ id, e.view id = e'.view id

-- What can be asked of an engine at any time: whether a context is there, and what a context that
-- the engine knows finds under a key.
inductive Query
  | context (now : Utc) (id : Str)
  | value (now : Nat → Utc) (depth : Nat) (id key : Str)

inductive Answer (φ : Type)
  | context (found : Bool)
  | value (value : Option (Json φ))

def ask : Query → EStateM ContextError (ContextEngine φ (Json φ)) (Answer φ)
  | .context now id => fun e => .ok (.context (e.getContext now id).1.isSome) (e.getContext now id).2
  | .value now depth id key => fun e =>
      match e.contexts.get? id with
      | none => .ok (.value none) e
      | some ref =>
          match e.get now depth ref key with
          | (.ok value, t) => .ok (.value value) t
          | (.error err, t) => .error err t

section Simulation

variable {e e' : ContextEngine φ (Json φ)}

open ContextEngine

-- A lookup finds the same context in both, or in neither.
theorem Alike.getContext (h : Alike e e') (now : Utc) (id : Str) :
    (∃ ref ref', e.getContext now id = (some ref, e) ∧ e'.getContext now id = (some ref', e') ∧
      e.objects[ref]? = e'.objects[ref']?) ∨
    ∃ t t', e.getContext now id = (none, t) ∧ e'.getContext now id = (none, t') ∧ Alike t t' := by
  have hview := h.view id
  rcases getContext_cases now id e with ⟨ref, ctx, hf, hx, he⟩ | ⟨hf, he⟩ | ⟨ref, ctx, hf, hx, he⟩
  · rw [view_of_find hf] at hview
    obtain ⟨ref', hf'⟩ := find_of_view hview.symm
    refine .inl ⟨ref, ref', he, ?_, ?_⟩
    · simp [ContextEngine.getContext, hf', hx]
    · rw [(find_eq_some.mp hf).2, (find_eq_some.mp hf').2]
  · have hf' : e'.find id = none := by
      rw [find_eq_none] at hf ⊢
      rw [← hview, hf]
    refine .inr ⟨e, e', he, ?_, h⟩
    simp [ContextEngine.getContext, hf']
  · rw [view_of_find hf] at hview
    obtain ⟨ref', hf'⟩ := find_of_view hview.symm
    refine .inr ⟨_, e'.handleExpiration ref' ctx, he, ?_, ?_⟩
    · simp [ContextEngine.getContext, hf', hx]
    · refine ⟨h.left.handleExpiration ref ctx, h.right.handleExpiration ref' ctx, fun other => ?_⟩
      rw [h.left.view_handleExpiration hf, h.right.view_handleExpiration hf', h.view other]

-- The lookup through the parents finds the same value in both.
theorem Alike.get {ref ref' : ContextRef} (h : Alike e e') (now : Nat → Utc) (depth : Nat)
    (hobject : e.objects[ref]? = e'.objects[ref']?) (key : Str) :
    (e.get now depth ref key).1 = (e'.get now depth ref' key).1 ∧
      Alike (e.get now depth ref key).2 (e'.get now depth ref' key).2 := by
  induction depth generalizing ref ref' e e' with
  | zero => exact ⟨rfl, h⟩
  | succ depth ih =>
      unfold ContextEngine.get
      rw [← hobject]
      cases e.objects[ref]? with
      | none => exact ⟨rfl, h⟩
      | some ctx =>
          dsimp only
          cases ctx.data.get? key with
          | some value => exact ⟨rfl, h⟩
          | none =>
              dsimp only
              cases given ctx.parentId with
              | none => exact ⟨rfl, h⟩
              | some parentId =>
                  dsimp only
                  rcases h.getContext (now depth) parentId with ⟨parent, parent', he, he', ho⟩ |
                    ⟨t, t', he, he', ht⟩
                  · rw [he, he']
                    exact ih h ho
                  · rw [he, he']
                    exact ⟨rfl, ht⟩

theorem Alike.ask (h : Alike e e') (query : Query) :
    Matching Alike (ask query e) (Context.ask query e') := by
  cases query with
  | context now id =>
      rcases h.getContext now id with ⟨ref, ref', he, he', -⟩ | ⟨t, t', he, he', ht⟩
      · simp only [Context.ask, he, he']
        exact ⟨rfl, h⟩
      · simp only [Context.ask, he, he']
        exact ⟨rfl, ht⟩
  | value now depth id key =>
      have hview := h.view id
      simp only [Context.ask]
      cases hc : e.contexts.get? id with
      | none =>
          have hc' : e'.contexts.get? id = none := by
            rw [← h.right.view_eq_none, ← hview, h.left.view_eq_none, hc]
          rw [hc']
          exact ⟨rfl, h⟩
      | some ref =>
          cases hc' : e'.contexts.get? id with
          | none =>
              rw [h.right.view_eq_none.mpr hc', h.left.view_eq_none, hc] at hview
              cases hview
          | some ref' =>
              have hobject : e.objects[ref]? = e'.objects[ref']? := by
                rwa [view_eq, view_eq, hc, hc', Option.bind_some, Option.bind_some] at hview
              obtain ⟨hvalue, ht⟩ := h.get now depth hobject key
              revert hvalue ht
              dsimp only
              rcases e.get now depth ref key with ⟨value, t⟩
              rcases e'.get now depth ref' key with ⟨value', t'⟩
              rintro rfl ht
              cases value with
              | ok value => exact ⟨rfl, ht⟩
              | error err => exact ⟨rfl, ht⟩

-- Whatever is asked at whatever times, both give the same answers.
theorem Alike.outcomes (h : Alike e e') (queries : List Query) :
    Library.outcomes Context.ask queries e = Library.outcomes Context.ask queries e' :=
  outcomes_eq (fun _ => Alike) (fun query _ _ _ h => h.ask query) h

end Simulation

section Restore

variable {e : ContextEngine φ (Json φ)} {contexts : List (Str × RuntimeContext φ (Json φ))}

open ContextEngine

theorem restore_serialized (timedelta : φ → Option Int) (now : Str → Utc) (uuid : Str → Uuid)
    (e : ContextEngine φ (Json φ)) (hs : ∀ known ∈ contexts, known.2.Sound) :
    e.restore timedelta now uuid (contexts.map fun known => (known.1, .dict known.2.serialize)) =
      some (contexts.foldl (fun e known => e.add known.1 known.2) e) := by
  induction contexts generalizing e with
  | nil => rfl
  | cons known contexts ih =>
      have hread := (hs known (.head _)).deserialize_serialize timedelta (now known.1) (uuid known.1)
      rw [List.map_cons, restore, hread]
      exact ih _ fun other ho => hs other (.tail _ ho)

-- Contexts that are added under different identifiers of their own are all there in the end.
theorem wellFormed_adds (h : e.WellFormed)
    (hs : ∀ known ∈ contexts, known.2.id = known.1 ∧ known.2.Sound) :
    (contexts.foldl (fun e known => e.add known.1 known.2) e).WellFormed := by
  induction contexts generalizing e with
  | nil => exact h
  | cons known contexts ih =>
      obtain ⟨hid, hsound⟩ := hs known (.head _)
      have hadd : (e.add known.1 known.2).WellFormed := by
        rw [← hid]
        exact h.add hsound
      exact ih hadd fun other ho => hs other (.tail _ ho)

theorem view_adds (h : e.WellFormed)
    (hs : ∀ known ∈ contexts, known.2.id = known.1 ∧ known.2.Sound)
    (hnodup : (contexts.map Prod.fst).Nodup) (id : Str) :
    (contexts.foldl (fun e known => e.add known.1 known.2) e).view id =
      (Entries.lookup id contexts).or (e.view id) := by
  induction contexts generalizing e with
  | nil => rfl
  | cons known contexts ih =>
      obtain ⟨hid, hsound⟩ := hs known (.head _)
      obtain ⟨hnot, hnodup⟩ := List.nodup_cons.mp hnodup
      have hadd : (e.add known.1 known.2).WellFormed := by
        rw [← hid]
        exact h.add hsound
      rw [List.foldl_cons, ih hadd (fun other ho => hs other (.tail _ ho)) hnodup, h.view_add,
        Entries.lookup]
      by_cases hk : known.1 = id
      · subst hk
        rw [Entries.lookup_eq_none_iff.mpr hnot]
        simp
      · rw [if_neg hk, if_neg (Ne.symm hk)]

theorem known_sound (h : e.WellFormed) :
    ∀ known ∈ e.known.entries, known.2.id = known.1 ∧ known.2.Sound := by
  intro ⟨id, ctx⟩ hm
  rw [Dict.mem_entries_iff, ContextEngine.known, Dict.get?_filterMap] at hm
  obtain ⟨ref, hc, ho⟩ := Option.bind_eq_some_iff.mp hm
  exact ⟨h.find_id (find_eq_some.mpr ⟨hc, ho⟩), h.sound ctx (List.mem_of_getElem? ho)⟩

-- Loading what was saved makes an engine like the one that was saved.
theorem restore_alike (h : e.WellFormed) (timedelta : φ → Option Int) (now : Str → Utc)
    (uuid : Str → Uuid) : ∃ loaded,
      ContextEngine.empty.restore timedelta now uuid e.serialized.entries = some loaded ∧
        Alike loaded e := by
  have hsound := known_sound h
  refine ⟨_, restore_serialized timedelta now uuid .empty fun known hk => (hsound known hk).2, ?_⟩
  refine ⟨wellFormed_adds .empty hsound, h, fun id => ?_⟩
  have hempty : (ContextEngine.empty : ContextEngine φ (Json φ)).view id = none := rfl
  rw [view_adds .empty hsound e.known.nodup, hempty, Option.or_none, view_eq]
  exact Dict.get?_filterMap _ _ _

end Restore

-- What was saved is loaded: the same identifiers, for each of them the same context, and the same
-- answers to everything that is asked at any time after.
theorem contexts_survive_storage (backend : Backend φ) (timedelta : φ → Option Int)
    (acts : List (Action φ (Json φ))) (keyPrefix : Str) (storage stored : backend.State)
    (h : (ContextEngine.performAll timedelta acts).saveAllContextsToStorage backend keyPrefix
      storage = some stored) (now : Str → Utc) (uuid : Str → Uuid) :
    ∃ loaded, ContextEngine.empty.loadAllContextsFromStorage backend timedelta now uuid keyPrefix
        stored = some loaded ∧
      (∀ id, id ∈ loaded.contexts ↔ id ∈ (ContextEngine.performAll timedelta acts).contexts) ∧
      (∀ id, loaded.view id = (ContextEngine.performAll timedelta acts).view id) ∧
      ∀ queries, outcomes ask queries loaded =
        outcomes ask queries (ContextEngine.performAll timedelta acts) := by
  have hwell := ContextEngine.wellFormed_performAll timedelta acts
  obtain ⟨loaded, hrestore, halike⟩ := restore_alike hwell timedelta now uuid
  refine ⟨loaded, ?_, fun id => ?_, halike.view, halike.outcomes⟩
  · rw [ContextEngine.loadAllContextsFromStorage, backend.get_set h]
    exact hrestore
  · have hview := halike.view id
    have hiff : loaded.contexts.get? id = none ↔
        (ContextEngine.performAll timedelta acts).contexts.get? id = none := by
      rw [← halike.left.view_eq_none, ← hwell.view_eq_none, hview]
    rwa [Dict.get?_eq_none_iff, Dict.get?_eq_none_iff, not_iff_not] at hiff

-- A request with a context of its own under one that lasts an hour.
theorem start_lt_endOfTime : 0 < endOfTime := by
  decide

def startOfTime : Utc := ⟨⟨0, some 0, start_lt_endOfTime, DateTime.utc_isOffset⟩, rfl⟩

theorem session_ne_nil : Str.ofString "session" ≠ [] := by
  decide

theorem request_ne_nil : Str.ofString "request" ≠ [] := by
  decide

def sessionCalls : List (Action Unit (Json Unit)) :=
  [.createContext startOfTime ⟨.ofString "session", session_ne_nil⟩
      (some (.ofEntries [(.ofString "user", .str (.ofString "Jules"))])) none none (some (.int 3600))
      (some [.ofString "web"]),
    .createContext startOfTime ⟨.ofString "request", request_ne_nil⟩ none (some (.ofString "session"))
      none none none]

theorem session_survives_storage : ∃ stored loaded,
    (ContextEngine.performAll (fun _ => none) sessionCalls).saveAllContextsToStorage .inMemory
        (.ofString "contexts") .empty = some stored ∧
      ContextEngine.empty.loadAllContextsFromStorage .inMemory (fun _ => none)
        (fun _ => startOfTime) (fun _ => ⟨.ofString "other", by decide⟩) (.ofString "contexts")
        stored = some loaded ∧
      ∀ queries, outcomes ask queries loaded =
        outcomes ask queries (ContextEngine.performAll (fun _ => none) sessionCalls) := by
  obtain ⟨loaded, hload, -, -, hqueries⟩ := contexts_survive_storage .inMemory (fun _ => none)
    sessionCalls (.ofString "contexts") .empty _ rfl (fun _ => startOfTime)
    fun _ => ⟨.ofString "other", by decide⟩
  exact ⟨_, loaded, rfl, hload, hqueries⟩

end YasinCore.Context
