import YasinCore.Context.Storage
import YasinCore.Library.Ancestry

namespace YasinCore.Context

open YasinCore.Library YasinCore.Library.Ancestry

variable {φ ν : Type} {timedelta : φ → Option Int}

namespace ContextEngine

-- One known context is under another.
def ParentOf (e : ContextEngine φ ν) (child parent : Str) : Prop :=
  ∃ ctx, e.view child = some ctx ∧ ctx.parentId = some parent ∧ parent ∈ e.contexts

-- The contexts that a lookup goes through, with the readings of the clock that it finds: the chain
-- ends before the first parent that is not there or is expired.
inductive Chain (now : Nat → Utc) (e : ContextEngine φ ν) :
    Nat → ContextRef → List (RuntimeContext φ ν) → Prop
  | last {depth : Nat} {ref : ContextRef} {ctx : RuntimeContext φ ν} :
      e.objects[ref]? = some ctx →
      (∀ id parent found, given ctx.parentId = some id → e.find id = some (parent, found) →
        found.isExpired (now depth) = true) →
      Chain now e (depth + 1) ref [ctx]
  | next {depth : Nat} {ref parent : ContextRef} {ctx found : RuntimeContext φ ν} {id : Str}
      {chain : List (RuntimeContext φ ν)} :
      e.objects[ref]? = some ctx → given ctx.parentId = some id →
      e.find id = some (parent, found) → found.isExpired (now depth) = false →
      Chain now e depth parent chain → Chain now e (depth + 1) ref (ctx :: chain)

-- Every lookup that starts at a known context and has room for one level per known context finds the
-- nearest value, or the default.
def FindsNearest (e : ContextEngine φ ν) : Prop :=
  ∀ id ref key (default : ν) now depth, e.contexts.get? id = some ref →
    e.contexts.keys.length ≤ depth →
    ∃ chain, Chain now e depth ref chain ∧
      (e.get now depth ref key).1.map (·.getD default) =
        .ok ((chain.findSome? fun ctx => ctx.data.get? key).getD default)

variable {e : ContextEngine φ ν} {log : List (Str × Option Str)}

theorem WellFormed.name_mem (h : e.WellFormed) (hnames : e.names ⊆ log) {id : Str}
    {ctx : RuntimeContext φ ν} (hv : e.view id = some ctx) : (id, ctx.parentId) ∈ log := by
  obtain ⟨ref, hf⟩ := find_of_view hv
  obtain ⟨-, ho⟩ := find_eq_some.mp hf
  have hname : (ctx.id, ctx.parentId) ∈ e.names :=
    List.mem_map.mpr ⟨ctx, List.mem_of_getElem? ho, rfl⟩
  rw [h.find_id hf] at hname
  exact hnames hname

theorem WellFormed.acyclic (h : e.WellFormed) (hnames : e.names ⊆ log) (hlog : Ordered log)
    (id : Str) : ¬Relation.TransGen e.ParentOf id id := by
  refine hlog.acyclic (fun child parent hparent => ?_) id
  obtain ⟨ctx, hv, hp, -⟩ := hparent
  rw [← hp]
  exact h.name_mem hnames hv

-- Every step up the chain leaves fewer of the known contexts that were made before.
theorem WellFormed.exists_chain (h : e.WellFormed) (hnames : e.names ⊆ log) (hlog : Ordered log)
    (now : Nat → Utc) (key : Str) {depth : Nat} {id : Str} {ref : ContextRef}
    (hc : e.contexts.get? id = some ref) (hdepth : below e.contexts.keys log id < depth) :
    ∃ chain, Chain now e depth ref chain ∧
      (e.get now depth ref key).1 = .ok (chain.findSome? fun ctx => ctx.data.get? key) := by
  induction depth generalizing id ref with
  | zero => omega
  | succ depth ih =>
      obtain ⟨ctx, ho, hid⟩ := h.known id ref hc
      have hv : e.view id = some ctx := view_of_find (find_eq_some.mpr ⟨hc, ho⟩)
      have hget (chain : List (RuntimeContext φ ν)) {value : ν}
          (hvalue : ctx.data.get? key = some value) : (e.get now (depth + 1) ref key).1 =
            .ok ((ctx :: chain).findSome? fun ctx => ctx.data.get? key) := by
        simp only [ContextEngine.get, ho, hvalue, List.findSome?_cons]
      by_cases hparent : ∃ parentId parent found, given ctx.parentId = some parentId ∧
          e.find parentId = some (parent, found) ∧ found.isExpired (now depth) = false
      · obtain ⟨parentId, parent, found, hp, hf, hx⟩ := hparent
        have hcontexts := (find_eq_some.mp hf).1
        have hlogged := h.name_mem hnames hv
        rw [(Option.filter_eq_some_iff.mp hp).1] at hlogged
        have hknown : parentId ∈ e.contexts.keys :=
          (Dict.mem_keys_iff _ _).mpr ⟨parent, hcontexts⟩
        have hless := below_parent_lt hlog hlogged hknown
        obtain ⟨chain, hchain, hrest⟩ := ih hcontexts (by omega)
        refine ⟨ctx :: chain, .next ho hp hf hx hchain, ?_⟩
        cases hvalue : ctx.data.get? key with
        | some value => exact hget chain hvalue
        | none =>
            have hlookup : e.getContext (now depth) parentId = (some parent, e) := by
              simp [ContextEngine.getContext, hf, hx]
            simp only [ContextEngine.get, ho, hvalue, hp, hlookup, List.findSome?_cons]
            exact hrest
      · refine ⟨[ctx], .last ho fun parentId parent found hp hf => ?_, ?_⟩
        · by_contra hx
          exact hparent ⟨parentId, parent, found, hp, hf, Bool.eq_false_of_not_eq_true hx⟩
        · cases hvalue : ctx.data.get? key with
          | some value => exact hget [] hvalue
          | none =>
              simp only [ContextEngine.get, ho, hvalue, List.findSome?_cons, List.findSome?_nil]
              cases hp : given ctx.parentId with
              | none => rfl
              | some parentId =>
                  rcases getContext_cases (now depth) parentId e with ⟨parent, found, hf, hx, -⟩ |
                    ⟨-, he⟩ | ⟨_, _, -, -, he⟩
                  · exact (hparent ⟨parentId, parent, found, hp, hf, hx⟩).elim
                  · simp only [he]
                  · simp only [he]

theorem WellFormed.findsNearest (h : e.WellFormed) (hnames : e.names ⊆ log) (hlog : Ordered log) :
    e.FindsNearest := by
  intro id ref key default now depth hc hdepth
  have hknown : id ∈ e.contexts.keys :=
    (Dict.mem_keys_iff _ _).mpr ⟨ref, hc⟩
  have hbelow := below_lt_length log hknown
  obtain ⟨chain, hchain, hget⟩ := h.exists_chain hnames hlog now key hc (hbelow.trans_le hdepth)
  exact ⟨chain, hchain, by rw [hget]; rfl⟩

end ContextEngine

-- A dictionary that an engine has handed to a storage.
abbrev Payload (φ : Type) := List (Str × Json φ)

-- Some engines, and all that has been written under the keys of some storages. The log holds every
-- context that was made, the newest first.
structure World (φ : Type) where
  engines : Nat → ContextEngine φ (Json φ)
  written : Nat → Str → List (Payload φ)
  log : List (Str × Option Str)

-- A load comes with the position of what the storage finds among all that was written under the key;
-- it finds nothing where there is no such position.
inductive Call (φ : Type)
  | perform (engine : Nat) (act : Action φ (Json φ))
  | clear (engine : Nat)
  | pruneExpiredContexts (engine : Nat) (now : Str → Utc)
  | saveContextToStorage (engine storage : Nat) (now : Utc) (id keyPrefix : Str)
  | saveAllContextsToStorage (engine storage : Nat) (keyPrefix : Str)
  | loadContextFromStorage (engine storage : Nat) (now : Utc) (uuid : Uuid) (id keyPrefix : Str)
      (found : Nat)
  | loadAllContextsFromStorage (engine storage : Nat) (now : Str → Utc) (uuid : Str → Uuid)
      (keyPrefix : Str) (found : Nat)

namespace World

def empty : World φ := ⟨fun _ => .empty, fun _ _ => [], []⟩

def setEngine (w : World φ) (engine : Nat) (e : ContextEngine φ (Json φ)) : World φ :=
  { w with engines := Function.update w.engines engine e }

def write (w : World φ) (storage : Nat) (key : Str) (payload : Payload φ) : World φ :=
  { w with
    written := Function.update w.written storage
      (Function.update (w.written storage) key (payload :: w.written storage key)) }

-- A context that is loaded without an identifier gets a new one.
def renamed (timedelta : φ → Option Int) (now : Utc) (uuid : Uuid) (payload : Payload φ) :
    List (Str × Option Str) :=
  match RuntimeContext.ofPayload timedelta now uuid payload with
  | some ctx => if ctx.id = uuid.val then [(ctx.id, ctx.parentId)] else []
  | none => []

def step (timedelta : φ → Option Int) (w : World φ) : Call φ → Option (World φ)
  | .perform engine act =>
      let e := w.engines engine
      some { w.setEngine engine (e.perform timedelta act) with
        log := e.created timedelta act ++ w.log }
  | .clear engine => some (w.setEngine engine (w.engines engine).clear)
  | .pruneExpiredContexts engine now =>
      some (w.setEngine engine ((w.engines engine).pruneExpiredContexts now))
  | .saveContextToStorage engine storage now id keyPrefix =>
      match (w.engines engine).contextPayload now id with
      | (some payload, e) => some ((w.setEngine engine e).write storage (keyPrefix ++ id) payload)
      | (none, e) => some (w.setEngine engine e)
  | .saveAllContextsToStorage engine storage keyPrefix =>
      some (w.write storage keyPrefix (w.engines engine).serialized.entries)
  | .loadContextFromStorage engine storage now uuid id keyPrefix found =>
      match (w.written storage (keyPrefix ++ id))[found]? with
      | some payload =>
          some { w.setEngine engine ((w.engines engine).loadContext timedelta now uuid payload) with
            log := renamed timedelta now uuid payload ++ w.log }
      | none => some w
  | .loadAllContextsFromStorage engine storage now uuid keyPrefix found =>
      match (w.written storage keyPrefix)[found]? with
      | some payload =>
          some (w.setEngine engine ((w.engines engine).loadAllContexts timedelta now uuid payload))
      | none => some w

-- A generated identifier is a new one.
def Fresh (w : World φ) : Call φ → Prop
  | .perform _ (.createContext _ uuid _ parentId _ _ _) =>
      parentId ≠ some uuid.val ∧ New w.log uuid.val
  | .loadContextFromStorage _ _ _ uuid _ _ _ => New w.log uuid.val
  | _ => True

end World

section Tracked

variable {e : ContextEngine φ (Json φ)} {log later : List (Str × Option Str)} {payload : Payload φ}
  {now : Utc} {uuid : Uuid} {ctx : RuntimeContext φ (Json φ)}

-- What the engine holds is in the log.
structure Tracked (log : List (Str × Option Str)) (e : ContextEngine φ (Json φ)) : Prop where
  wellFormed : e.WellFormed
  names : e.names ⊆ log

-- What the engines write: a context, or all contexts under their identifiers.
inductive Saved (log : List (Str × Option Str)) : Payload φ → Prop
  | single {ctx : RuntimeContext φ (Json φ)} :
      ctx.Sound → (ctx.id, ctx.parentId) ∈ log → Saved log ctx.serialize
  | all {contexts : List (Str × RuntimeContext φ (Json φ))} :
      (∀ known ∈ contexts, known.2.id = known.1 ∧ known.2.Sound ∧
        (known.2.id, known.2.parentId) ∈ log) →
      Saved log (contexts.map fun known => (known.1, .dict known.2.serialize))

theorem Tracked.mono (h : Tracked log e) (hlog : log ⊆ later) : Tracked later e :=
  ⟨h.wellFormed, List.Subset.trans h.names hlog⟩

theorem Saved.mono (h : Saved log payload) (hlog : log ⊆ later) : Saved later payload := by
  cases h with
  | single hs hm => exact .single hs (hlog hm)
  | all hall =>
      refine .all fun known hk => ?_
      obtain ⟨hid, hs, hm⟩ := hall known hk
      exact ⟨hid, hs, hlog hm⟩

theorem Tracked.add (h : Tracked log e) (hs : ctx.Sound) (hm : (ctx.id, ctx.parentId) ∈ log) :
    Tracked log (e.add ctx.id ctx) where
  wellFormed := h.wellFormed.add hs
  names := by
    rw [ContextEngine.names_add]
    exact List.append_subset.mpr ⟨h.names, by simpa using hm⟩

theorem deserialize_spec (h : RuntimeContext.deserialize timedelta now uuid payload = some ctx) :
    ∃ contextId parentId,
      text? ((Entries.lookup (.ofString "id") payload).getD .null) = some contextId ∧
      text? ((Entries.lookup (.ofString "parent_id") payload).getD .null) = some parentId ∧
      ctx.id = (given contextId).getD uuid.val ∧ ctx.parentId = parentId ∧ ctx.Sound := by
  unfold RuntimeContext.deserialize at h
  -- one field of the payload after the other
  obtain ⟨contextId, hid, h⟩ := Option.bind_eq_some_iff.mp h
  obtain ⟨parentId, hparent, h⟩ := Option.bind_eq_some_iff.mp h
  obtain ⟨data, -, h⟩ := Option.bind_eq_some_iff.mp h
  obtain ⟨metadata, -, h⟩ := Option.bind_eq_some_iff.mp h
  obtain ⟨ttl, -, h⟩ := Option.bind_eq_some_iff.mp h
  obtain ⟨tags, -, h⟩ := Option.bind_eq_some_iff.mp h
  obtain ⟨createdAt, -, h⟩ := Option.bind_eq_some_iff.mp h
  obtain ⟨updatedAt, -, h⟩ := Option.bind_eq_some_iff.mp h
  obtain ⟨expiresAt, -, h⟩ := Option.bind_eq_some_iff.mp h
  obtain ⟨made, hmade, h⟩ := Option.bind_eq_some_iff.mp h
  have hinit : RuntimeContext.init timedelta now uuid contextId parentId data metadata ttl tags
      createdAt updatedAt expiresAt = .ok made := by
    cases hi : RuntimeContext.init timedelta now uuid contextId parentId data metadata ttl tags
        createdAt updatedAt expiresAt with
    | error _ =>
        rw [hi] at hmade
        cases hmade
    | ok _ =>
        rw [hi] at hmade
        cases hmade
        rfl
  obtain ⟨hmadeId, hmadeParent, -⟩ := ContextEngine.init_data hinit
  have hsound := RuntimeContext.init_sound hinit
  refine ⟨contextId, parentId, hid, hparent, ?_⟩
  split at h
  · cases h
    exact ⟨hmadeId, hmadeParent, hsound⟩
  · cases h
    exact ⟨hmadeId, hmadeParent,
      ⟨hsound.id, hsound.createdAt, hsound.updatedAt, hsound.expiresAt, hsound.ttl⟩⟩
  · cases h

theorem Tracked.mem_log (h : Tracked log e) (hm : ctx ∈ e.objects) :
    (ctx.id, ctx.parentId) ∈ log :=
  h.names (List.mem_map_of_mem hm)

-- What an engine hands to a storage is what it knows.
theorem Tracked.contextPayload (h : Tracked log e) (now : Utc) (id : Str) :
    Tracked log (e.contextPayload now id).2 ∧
      ∀ payload, (e.contextPayload now id).1 = some payload → Saved log payload := by
  have hget : Tracked log (e.getContext now id).2 := by
    refine ⟨h.wellFormed.getContext now id, ?_⟩
    rw [ContextEngine.names_getContext]
    exact h.names
  unfold ContextEngine.contextPayload
  split
  · rename_i ref t heq
    rw [heq] at hget
    refine ⟨hget, fun payload hp => ?_⟩
    obtain ⟨ctx, ho, rfl⟩ := Option.map_eq_some_iff.mp hp
    have hm := List.mem_of_getElem? ho
    exact .single (hget.wellFormed.sound ctx hm) (hget.mem_log hm)
  · rename_i t heq
    rw [heq] at hget
    exact ⟨hget, nofun⟩

theorem Tracked.serialized (h : Tracked log e) : Saved log e.serialized.entries := by
  have hall : ∀ known ∈ e.known.entries, known.2.id = known.1 ∧ known.2.Sound ∧
      (known.2.id, known.2.parentId) ∈ log := by
    intro ⟨id, ctx⟩ hk
    obtain ⟨hid, hs⟩ := known_sound h.wellFormed _ hk
    rw [Dict.mem_entries_iff, ContextEngine.known, Dict.get?_filterMap] at hk
    obtain ⟨ref, -, ho⟩ := Option.bind_eq_some_iff.mp hk
    exact ⟨hid, hs, h.mem_log (List.mem_of_getElem? ho)⟩
  exact .all hall

-- There is no text among the values when all contexts were saved.
theorem text?_all (contexts : List (Str × RuntimeContext φ (Json φ))) (name : Str)
    {text : Option Str}
    (h : text? ((Entries.lookup name
      (contexts.map fun known => (known.1, (.dict known.2.serialize : Json φ)))).getD .null) =
        some text) : text = none := by
  cases hl : Entries.lookup name
      (contexts.map fun known => (known.1, (.dict known.2.serialize : Json φ))) with
  | none =>
      rw [hl] at h
      cases h
      rfl
  | some value =>
      obtain ⟨known, -, hknown⟩ := List.mem_map.mp (Entries.mem_of_lookup hl)
      cases hknown
      rw [hl] at h
      cases h

-- A context that is loaded alone is one that was saved, or a new one without a parent.
theorem Saved.ofPayload (h : Saved log payload)
    (hctx : RuntimeContext.ofPayload timedelta now uuid payload = some ctx) :
    ctx.Sound ∧ ((ctx.id, ctx.parentId) ∈ log ∨ ctx.id = uuid.val ∧ ctx.parentId = none) := by
  cases h with
  | @single saved hs hm =>
      have hread : RuntimeContext.ofPayload timedelta now uuid saved.serialize = some saved :=
        hs.deserialize_serialize timedelta now uuid
      rw [hread] at hctx
      cases hctx
      exact ⟨hs, .inl hm⟩
  | @all contexts hall =>
      have hread : RuntimeContext.deserialize timedelta now uuid
          (contexts.map fun known => (known.1, .dict known.2.serialize)) = some ctx := by
        cases contexts with
        | nil => cases hctx
        | cons known contexts => exact hctx
      obtain ⟨contextId, parentId, hid, hparent, hctxId, hctxParent, hs⟩ := deserialize_spec hread
      rw [text?_all contexts _ hid] at hctxId
      rw [text?_all contexts _ hparent] at hctxParent
      exact ⟨hs, .inr ⟨hctxId, hctxParent⟩⟩

theorem Tracked.loadContext (h : Tracked log e) (hp : Saved log payload) :
    Tracked (World.renamed timedelta now uuid payload ++ log)
      (e.loadContext timedelta now uuid payload) := by
  unfold ContextEngine.loadContext World.renamed
  cases hctx : RuntimeContext.ofPayload timedelta now uuid payload with
  | none => exact h
  | some ctx =>
      obtain ⟨hs, hm⟩ := hp.ofPayload hctx
      dsimp only
      split
      · exact (h.mono (List.subset_append_right _ _)).add hs (by simp)
      · rename_i hne
        exact h.add hs (hm.resolve_right fun hnew => hne hnew.1)

theorem Saved.renamed (h : Saved log payload) (timedelta : φ → Option Int) (now : Utc)
    (hfresh : New log uuid.val) :
    World.renamed timedelta now uuid payload = [] ∨
      World.renamed timedelta now uuid payload = [(uuid.val, none)] := by
  unfold World.renamed
  cases hctx : RuntimeContext.ofPayload timedelta now uuid payload with
  | none => exact .inl rfl
  | some ctx =>
      dsimp only
      split
      · rename_i hid
        rcases (h.ofPayload hctx).2 with hm | ⟨-, hparent⟩
        · exact ((hfresh _ hm).1 hid).elim
        · rw [hid, hparent]
          exact .inr rfl
      · exact .inl rfl

theorem Tracked.loadAllContexts (h : Tracked log e) (hp : Saved log payload) (now : Str → Utc)
    (uuid : Str → Uuid) : Tracked log (e.loadAllContexts timedelta now uuid payload) := by
  cases hp with
  | single hs hm => exact h
  | @all contexts hall =>
      induction contexts generalizing e with
      | nil => exact h
      | cons known contexts ih =>
          obtain ⟨hid, hs, hm⟩ := hall known (.head _)
          have hread := hs.deserialize_serialize timedelta (now known.1) (uuid known.1)
          rw [List.map_cons, ContextEngine.loadAllContexts, hread]
          refine ih ?_ fun other ho => hall other (.tail _ ho)
          rw [← hid]
          exact h.add hs hm

end Tracked

namespace World

-- Everything that any engine holds and any storage ever held is in the log, and the log is in order.
structure Traced (w : World φ) : Prop where
  ordered : Ordered w.log
  engines : ∀ engine, Tracked w.log (w.engines engine)
  written : ∀ storage key, ∀ payload ∈ w.written storage key, Saved w.log payload

-- What the claim says of each of the engines.
structure Settled (w : World φ) : Prop where
  acyclic : ∀ engine id, ¬Relation.TransGen (w.engines engine).ParentOf id id
  nearest : ∀ engine, (w.engines engine).FindsNearest

variable {w t : World φ}

theorem Traced.settled (h : w.Traced) : w.Settled where
  acyclic engine := (h.engines engine).wellFormed.acyclic (h.engines engine).names h.ordered
  nearest engine := (h.engines engine).wellFormed.findsNearest (h.engines engine).names h.ordered

-- One engine has become another one, and some contexts may have been made.
theorem Traced.setEngine (h : w.Traced) {engine : Nat} {e : ContextEngine φ (Json φ)}
    (made : List (Str × Option Str)) (hmade : Ordered (made ++ w.log))
    (he : Tracked (made ++ w.log) e) : Traced { w.setEngine engine e with log := made ++ w.log } where
  ordered := hmade
  engines other := by
    change Tracked _ (Function.update w.engines engine e other)
    rw [Function.update_apply]
    split
    · exact he
    · exact (h.engines other).mono (List.subset_append_right _ _)
  written storage key payload hp :=
    (h.written storage key payload hp).mono (List.subset_append_right _ _)

theorem Traced.write (h : w.Traced) (storage : Nat) (key : Str) {payload : Payload φ}
    (hp : Saved w.log payload) : (w.write storage key payload).Traced where
  ordered := h.ordered
  engines := h.engines
  written other name found hf := by
    change found ∈ Function.update w.written storage _ other name at hf
    rw [Function.update_apply] at hf
    split at hf
    · rw [Function.update_apply] at hf
      split at hf
      · rcases List.mem_cons.mp hf with rfl | hf
        · exact hp
        · exact h.written storage key found hf
      · exact h.written storage name found hf
    · exact h.written other name found hf

theorem traced_step {call : Call φ} (h : w.Traced) (hfresh : w.Fresh call)
    (hstep : w.step timedelta call = some t) : t.Traced := by
  cases call with
  | perform engine act =>
      cases hstep
      have hnames := ContextEngine.names_perform (e := w.engines engine) timedelta act
      have hwell := (h.engines engine).wellFormed.perform timedelta act
      refine h.setEngine _ ?_ ⟨hwell, ?_⟩
      · cases act with
        | createContext now uuid data parentId metadata ttl tags =>
            unfold ContextEngine.created
            dsimp only
            split
            · exact .cons hfresh.1 hfresh.2 h.ordered
            · exact h.ordered
        | _ => exact h.ordered
      · rw [hnames]
        refine List.append_subset.mpr ⟨?_, List.subset_append_left _ _⟩
        exact List.Subset.trans (h.engines engine).names (List.subset_append_right _ _)
  | clear engine =>
      cases hstep
      refine h.setEngine [] h.ordered ⟨(h.engines engine).wellFormed.clear, ?_⟩
      rw [ContextEngine.names_clear]
      exact (h.engines engine).names
  | pruneExpiredContexts engine now =>
      cases hstep
      refine h.setEngine [] h.ordered
        ⟨(h.engines engine).wellFormed.pruneExpiredContexts now, ?_⟩
      rw [ContextEngine.names_pruneExpiredContexts]
      exact (h.engines engine).names
  | saveContextToStorage engine storage now id keyPrefix =>
      obtain ⟨hget, hpayload⟩ := (h.engines engine).contextPayload now id
      unfold step at hstep
      dsimp only at hstep
      split at hstep
      · rename_i payload e heq
        cases hstep
        rw [heq] at hget hpayload
        have hset : (w.setEngine engine e).Traced := h.setEngine [] h.ordered hget
        exact hset.write storage (keyPrefix ++ id) (hpayload payload rfl)
      · rename_i e heq
        cases hstep
        rw [heq] at hget
        exact h.setEngine [] h.ordered hget
  | saveAllContextsToStorage engine storage keyPrefix =>
      cases hstep
      exact h.write storage keyPrefix (h.engines engine).serialized
  | loadContextFromStorage engine storage now uuid id keyPrefix found =>
      unfold step at hstep
      dsimp only at hstep
      split at hstep
      · rename_i payload hpayload
        cases hstep
        have hsaved := h.written _ _ payload (List.mem_of_getElem? hpayload)
        refine h.setEngine _ ?_ ((h.engines engine).loadContext hsaved)
        rcases hsaved.renamed timedelta now hfresh with hr | hr
        · rw [hr]
          exact h.ordered
        · rw [hr]
          exact .cons nofun hfresh h.ordered
      · cases hstep
        exact h
  | loadAllContextsFromStorage engine storage now uuid keyPrefix found =>
      unfold step at hstep
      dsimp only at hstep
      split at hstep
      · rename_i payload hpayload
        cases hstep
        have hsaved := h.written _ _ payload (List.mem_of_getElem? hpayload)
        exact h.setEngine [] h.ordered ((h.engines engine).loadAllContexts hsaved now uuid)
      · cases hstep
        exact h

-- Whatever engines and storages do, no chain of parents comes back to where it began, and every lookup
-- ends with the nearest value.
theorem parents_settled (timedelta : φ → Option Int) (calls : List (Call φ))
    (hfresh : Meets (step timedelta) Fresh .empty calls) :
    Always (step timedelta) Settled .empty calls := by
  refine always_iff.mpr fun first second t he hr => ?_
  rw [he] at hfresh
  have hempty : Traced (.empty : World φ) := ⟨.nil, fun _ => ⟨.empty, nofun⟩, nofun⟩
  refine Traced.settled (hr.invariant Traced ?_ ((Meets.append hr).mp hfresh).1 hempty)
  intro w call t hw hcall ht
  exact traced_step hw hcall ht

-- Two contexts that move from one engine to another through a storage.
def moved : List (Call Unit) :=
  [.perform 0 (.createContext startOfTime ⟨.ofString "session", session_ne_nil⟩
      (some (.ofEntries [(.ofString "user", .str (.ofString "Jules"))])) none none (some (.int 3600))
      none),
    .perform 0 (.createContext startOfTime ⟨.ofString "request", request_ne_nil⟩ none
      (some (.ofString "session")) none none none),
    .saveAllContextsToStorage 0 0 (.ofString "contexts"), .clear 0,
    .loadAllContextsFromStorage 1 0 (fun _ => startOfTime) (fun _ => ⟨.ofString "session", session_ne_nil⟩)
      (.ofString "contexts") 0]

theorem parents_settled_moved : Always (step fun _ => none) Settled .empty moved := by
  refine parents_settled (fun _ => none) moved ?_
  refine .cons rfl ⟨nofun, by decide⟩ (.cons rfl ⟨by decide, by decide⟩ ?_)
  exact .cons rfl trivial (.cons rfl trivial (.cons rfl trivial trivial))

end World

end YasinCore.Context
