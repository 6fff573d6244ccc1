import YasinCore.Api.Gateway

namespace YasinCore.Api

open YasinCore.Library

variable {σ φ : Type}

-- The fields that a handler finds in a body, unless it is one that it does not read fields from.
def fieldsOf (host : Host σ φ) (body : Json φ) : Option (List (Str × Json φ)) :=
  match orEmpty host body with
  | .dict entries => some entries
  | _ => none

-- What a handler checks of a field.
inductive Rule
  | present
  | string
  | dictionary
  | filled

def Rule.Met (host : Host σ φ) (value : Option (Json φ)) : Rule → Prop
  | present => value.isSome
  | string => ∃ given, value = some given ∧ isStr given = true
  | dictionary => ∀ given, value = some given → typeName given = "NoneType" ∨ isDict given = true
  | filled => ∃ given, value = some given ∧ truthy host given = true

-- A type of the parameters of the operations.
inductive FieldType
  | any
  | string
  | optionalString
  | optionalDictionary
  | optionalInt

def FieldType.Has (value : Json φ) : FieldType → Prop
  | any => True
  | string => isStr value = true
  | optionalString => typeName value = "NoneType" ∨ isStr value = true
  | optionalDictionary => typeName value = "NoneType" ∨ isDict value = true
  | optionalInt => typeName value = "NoneType" ∨ typeName value = "int"

namespace Endpoint

-- The fields that a handler uses, with the types that its operations are declared for.
def fieldTypes : Endpoint → List (String × FieldType)
  | runtimeStart | runtimeStop | runtimeReload => []
  | taskCreate | taskExecuteV1 | taskExecuteV2 =>
      [("id", .string), ("name", .string), ("input_data", .optionalDictionary)]
  | memorySaveV1 | memorySaveV2 =>
      [("key", .string), ("value", .any), ("category", .string), ("metadata", .optionalDictionary),
        ("ttl", .optionalInt)]
  | contextCreate =>
      [("data", .optionalDictionary), ("parent_id", .optionalString),
        ("metadata", .optionalDictionary)]
  | pluginLoad | pluginUnload | pluginStart | pluginStop => [("name", .string)]
  | eventPublish => [("event_name", .string), ("payload", .any)]

def Malformed (body : Json φ) (endpoint : Endpoint) : Prop :=
  ∀ entries, body = .dict entries → ∃ field ∈ endpoint.fieldTypes, ∃ value,
    Entries.lookup (.ofString field.1) entries = some value ∧ ¬field.2.Has value

def rules : Endpoint → List (String × Rule)
  | runtimeStart | runtimeStop | runtimeReload | contextCreate => []
  | taskCreate | taskExecuteV1 => [("id", .present), ("name", .present)]
  | taskExecuteV2 => [("id", .string), ("name", .string)]
  | memorySaveV1 => [("key", .present), ("value", .present)]
  | memorySaveV2 => [("key", .present), ("value", .present), ("metadata", .dictionary)]
  | pluginLoad | pluginUnload | pluginStart | pluginStop => [("name", .filled)]
  | eventPublish => [("event_name", .filled)]

def Accepts (host : Host σ φ) (entries : List (Str × Json φ)) (endpoint : Endpoint) : Prop :=
  ∀ rule ∈ endpoint.rules, rule.2.Met host (Entries.lookup (.ofString rule.1) entries)

def IgnoresBody (endpoint : Endpoint) : Prop :=
  endpoint = runtimeStart ∨ endpoint = runtimeStop ∨ endpoint = runtimeReload

-- The keys of the input data are listed after the task has been executed.
def Unlisted (host : Host σ φ) (entries : List (Str × Json φ)) (endpoint : Endpoint) : Prop :=
  endpoint = taskExecuteV2 ∧ ∃ given, Entries.lookup (.ofString "input_data") entries = some given ∧
    truthy host given = true ∧ isDict given = false

end Endpoint

-- A refusal of the handler itself.
def Invalid (e : Raised φ) : Prop := ∃ message, e = .api ⟨message, .validationError, 400, []⟩

-- From this world the program raises at once, an exception of some kind.
def Fails {α : Type} (kind : Raised φ → Prop) (w : World σ φ) (prog : Program σ φ α) : Prop :=
  Triple (· = w) prog (fun _ _ => False) fun e s => s = w ∧ kind e

-- Since some moment there have been calls, and they all have returned.
def Clean (before : List (Call φ)) (w : World σ φ) : Prop :=
  ∃ calls, w.calls = before ++ calls ∧ ∀ call ∈ calls, call.raised.isNone

-- Since some moment there have been calls, and one of them has raised this.
def RaisedIn (before : List (Call φ)) (e : Raised φ) (w : World σ φ) : Prop :=
  ∃ calls, w.calls = before ++ calls ∧ ∃ call ∈ calls, call.raised = some e

-- The program raises nothing that its calls have not raised.
def Serves {α : Type} (prog : Program σ φ α) (post : α → Prop) : Prop :=
  ∀ before, Triple (Clean before) prog (fun value w => post value ∧ Clean before w) (RaisedIn before)

section Programs

variable {α β : Type} {kind : Raised φ → Prop} {w : World σ φ} {prog : Program σ φ α}
  {next : α → Program σ φ β}

theorem Fails.raise {e : Raised φ} (h : kind e) : Fails kind w (raise e : Program σ φ α) :=
  Triple.throw fun _ hs => ⟨hs, h⟩

theorem Fails.bind (h : Fails kind w prog) : Fails kind w (prog >>= next) :=
  Triple.bind h fun _ => fun _ hs => hs.elim

theorem Fails.after {value : α} (h : Fails kind w (next value)) :
    Fails kind w ((pure value : Program σ φ α) >>= next) := by
  rw [pure_bind]
  exact h

theorem Serves.pure {value : α} {post : α → Prop} (h : post value) :
    Serves (pure value : Program σ φ α) post := fun _ => Triple.pure fun _ hs => ⟨h, hs⟩

theorem Serves.bind {mid : α → Prop} {post : β → Prop} (h : Serves prog mid)
    (hnext : ∀ value, mid value → Serves (next value) post) : Serves (prog >>= next) post := by
  intro before
  refine Triple.bind (h before) fun value s hs => ?_
  exact hnext value hs.1 before s hs.2

theorem Serves.get : Serves (get : Program σ φ (World σ φ)) fun _ => True :=
  fun _ => Triple.get fun _ hs => ⟨trivial, hs⟩

theorem Serves.call (client : Client σ φ) (operation : Operation φ) :
    Serves (call client operation) fun _ => True := by
  intro before w hw
  obtain ⟨calls, hcalls, hnone⟩ := hw
  unfold Api.call
  cases hrun : client operation w.client with
  | ok reply s =>
      refine ⟨trivial, calls ++ [⟨operation, none⟩], ?_, fun call hc => ?_⟩
      · rw [hcalls, List.append_assoc]
      · rcases List.mem_append.mp hc with hc | hc
        · exact hnone call hc
        · rw [List.mem_singleton.mp hc]
          rfl
  | error e s =>
      refine ⟨calls ++ [⟨operation, some e⟩], ?_, ⟨operation, some e⟩, ?_, rfl⟩
      · rw [hcalls, List.append_assoc]
      · exact List.mem_append_right _ (List.mem_singleton_self _)

end Programs

section Bodies

variable {host : Host σ φ} {client : Client σ φ} {request : APIRequest φ}
  {entries : List (Str × Json φ)} {w : World σ φ}

theorem both_pure (first second : Bool) :
    both (pure first : Program σ φ Bool) (pure second) = pure (first && second) := by
  cases first <;> rfl

theorem subscript_of_lookup {key : String} {value : Json φ}
    (h : Entries.lookup (.ofString key) entries = some value) :
    (subscript key (.dict entries) : Program σ φ (Json φ)) = pure value := by
  unfold subscript
  dsimp only
  rw [h]

theorem getField_dict (key : String) (default : Json φ) :
    (getField key default (.dict entries) : Program σ φ (Json φ)) =
      pure ((Entries.lookup (.ofString key) entries).getD default) := rfl

theorem requireFields_dict (first second error : String) :
    (requireFields (.dict entries) first second error : Program σ φ Unit) =
      if (Entries.lookup (.ofString first) entries).isSome ∧
          (Entries.lookup (.ofString second) entries).isSome then pure ()
      else invalid error := by
  unfold requireFields contains
  rw [both_pure, pure_bind]
  split <;> split <;> simp_all

-- Both fields are there, and can be taken.
theorem requireFields_met {first second : String} {value other : Json φ}
    (h : Entries.lookup (.ofString first) entries = some value)
    (ho : Entries.lookup (.ofString second) entries = some other) (error : String) :
    (requireFields (.dict entries) first second error : Program σ φ Unit) = pure () := by
  rw [requireFields_dict, h, ho, if_pos ⟨rfl, rfl⟩]

theorem requireFields_refused {first second : String}
    (h : ¬((Entries.lookup (.ofString first) entries).isSome ∧
      (Entries.lookup (.ofString second) entries).isSome)) (error : String) :
    Fails Invalid w (requireFields (.dict entries) first second error : Program σ φ Unit) := by
  rw [requireFields_dict, if_neg h]
  exact .raise ⟨_, rfl⟩

-- In what is not a dictionary fields are neither required nor read without an exception, and this
-- is not yet the place where the client is called.
theorem requireFields_still {body : Json φ} (first second error : String) :
    Maintains (· = w) (requireFields body first second error : Program σ φ Unit) := by
  have hcontains (key : String) : Maintains (· = w) (contains key body : Program σ φ Bool) := by
    cases body with
    | dict | list | str => exact .pure
    | null | bool | int | float | object => exact .throw
  have hboth : Maintains (· = w) (both (contains first body) (contains second body) :
      Program σ φ Bool) := by
    refine .bind (hcontains first) fun found => ?_
    cases found with
    | true => exact hcontains second
    | false => exact .pure
  exact .bind hboth fun complete => .ite (fun _ => .throw) fun _ => .pure

theorem subscript_fails {body : Json φ} (h : ∀ entries, body ≠ .dict entries) (key : String) :
    Fails (fun _ => True) w (subscript key body : Program σ φ (Json φ)) := by
  cases body with
  | dict entries => exact (h entries rfl).elim
  | list | str | null | bool | int | float | object => exact .raise trivial

theorem getField_fails {body : Json φ} (h : ∀ entries, body ≠ .dict entries) (key : String)
    (default : Json φ) :
    Fails (fun _ => True) w (getField key default body : Program σ φ (Json φ)) := by
  cases body with
  | dict entries => exact (h entries rfl).elim
  | list | str | null | bool | int | float | object => exact .raise trivial

theorem inputKeys_served (h : ∀ given,
    Entries.lookup (.ofString "input_data") entries = some given → truthy host given = true →
      isDict given = true) :
    ∃ keys, (inputKeys host (.dict entries) : Program σ φ (Json φ)) = pure keys := by
  unfold inputKeys
  rw [getField_dict, getField_dict, pure_bind]
  cases hl : Entries.lookup (.ofString "input_data") entries with
  | none => exact ⟨_, rfl⟩
  | some given =>
      rw [Option.getD_some, Option.getD_some, pure_bind]
      split
      · rename_i ht
        have hd := h given hl ht
        cases given with
        | dict inner => exact ⟨_, rfl⟩
        | list | str | null | bool | int | float | object => cases hd
      · exact ⟨_, rfl⟩

def Succeeded (response : APIResponse φ) : Prop :=
  (response.statusCode = 200 ∨ response.statusCode = 201) ∧ response.errors = []

theorem succeeded_ok (data : Json φ) (version : String) :
    Succeeded (.success 200 data version) := ⟨.inl rfl, rfl⟩

theorem succeeded_created (data : Json φ) (version : String) :
    Succeeded (.success 201 data version) := ⟨.inr rfl, rfl⟩

theorem report_serves (operation : Operation φ) (data : operation.Reply → Json φ)
    (request : APIRequest φ) : Serves (report client operation data request) Succeeded :=
  .bind (.call client operation) fun _ _ => .pure (succeeded_ok _ _)

theorem handleTaskCreate_serves (hbody : orEmpty host request.body = .dict entries)
    {id name : Json φ} (hid : Entries.lookup (.ofString "id") entries = some id)
    (hname : Entries.lookup (.ofString "name") entries = some name) :
    Serves (handleTaskCreate host client request) Succeeded := by
  simp only [handleTaskCreate, hbody, requireFields_met hid hname, subscript_of_lookup hid,
    subscript_of_lookup hname, getField_dict, pure_bind]
  exact .bind (.call client _) fun _ _ => .pure (succeeded_created _ _)

theorem handleTaskExecuteV1_serves (hbody : orEmpty host request.body = .dict entries)
    {id name : Json φ} (hid : Entries.lookup (.ofString "id") entries = some id)
    (hname : Entries.lookup (.ofString "name") entries = some name) :
    Serves (handleTaskExecuteV1 host client request) Succeeded := by
  simp only [handleTaskExecuteV1, hbody, requireFields_met hid hname, subscript_of_lookup hid,
    subscript_of_lookup hname, getField_dict, pure_bind]
  exact .bind (.call client _) fun _ _ => .bind (.call client _) fun _ _ => .pure (succeeded_ok _ _)

theorem handleTaskExecuteV2_serves (hbody : orEmpty host request.body = .dict entries)
    {id name : Json φ} (hid : Entries.lookup (.ofString "id") entries = some id)
    (hname : Entries.lookup (.ofString "name") entries = some name) (hids : isStr id = true)
    (hnames : isStr name = true) (hinput : ∀ given,
      Entries.lookup (.ofString "input_data") entries = some given → truthy host given = true →
        isDict given = true) :
    Serves (handleTaskExecuteV2 host client request) Succeeded := by
  obtain ⟨keys, hkeys⟩ := inputKeys_served hinput
  simp only [handleTaskExecuteV2, hbody, requireFields_met hid hname, subscript_of_lookup hid,
    subscript_of_lookup hname, getField_dict, pure_bind, map_pure, both_pure, hids, hnames,
    Bool.and_self, reduceCtorEq, if_false, hkeys]
  exact .bind (.call client _) fun _ _ => .bind .get fun _ _ => .bind (.call client _) fun _ _ =>
    .bind .get fun _ _ => .pure (succeeded_ok _ _)

theorem handleMemorySaveV1_serves (hbody : orEmpty host request.body = .dict entries)
    {key value : Json φ} (hkey : Entries.lookup (.ofString "key") entries = some key)
    (hvalue : Entries.lookup (.ofString "value") entries = some value) :
    Serves (handleMemorySaveV1 host client request) Succeeded := by
  simp only [handleMemorySaveV1, hbody, requireFields_met hkey hvalue, subscript_of_lookup hkey,
    subscript_of_lookup hvalue, getField_dict, pure_bind]
  exact .bind (.call client _) fun _ _ => .pure (succeeded_ok _ _)

theorem handleMemorySaveV2_serves (hbody : orEmpty host request.body = .dict entries)
    {key value : Json φ} (hkey : Entries.lookup (.ofString "key") entries = some key)
    (hvalue : Entries.lookup (.ofString "value") entries = some value)
    (hmetadata : ∀ given, Entries.lookup (.ofString "metadata") entries = some given →
      typeName given = "NoneType" ∨ isDict given = true) :
    Serves (handleMemorySaveV2 host client request) Succeeded := by
  have hmet : ¬(typeName ((Entries.lookup (.ofString "metadata") entries).getD .null) ≠ "NoneType" ∧
      isDict ((Entries.lookup (.ofString "metadata") entries).getD .null) = false) := by
    intro ⟨hnone, hdict⟩
    cases hl : Entries.lookup (.ofString "metadata") entries with
    | none => exact hnone (by rw [hl]; rfl)
    | some given =>
        rw [hl, Option.getD_some] at hnone hdict
        rcases hmetadata given hl with hn | hd
        · exact hnone hn
        · exact Bool.noConfusion (hd.symm.trans hdict)
  simp only [handleMemorySaveV2, hbody, requireFields_met hkey hvalue, subscript_of_lookup hkey,
    subscript_of_lookup hvalue, getField_dict, pure_bind, if_neg hmet]
  exact .bind (.call client _) fun _ _ => .pure (succeeded_ok _ _)

theorem handleContextCreate_serves (hbody : orEmpty host request.body = .dict entries) :
    Serves (handleContextCreate host client request) Succeeded := by
  simp only [handleContextCreate, hbody, getField_dict, pure_bind]
  exact .bind (.call client _) fun _ _ => .pure (succeeded_created _ _)

theorem pluginHandler_serves (hbody : orEmpty host request.body = .dict entries) {name : Json φ}
    (hname : Entries.lookup (.ofString "name") entries = some name) (ht : truthy host name = true)
    (operation : Json φ → Operation φ) (done : String) :
    Serves (pluginHandler host client operation done request) Succeeded := by
  simp only [pluginHandler, hbody, getField_dict, hname, Option.getD_some, pure_bind, ht,
    reduceCtorEq, if_false]
  exact .bind (.call client _) fun _ _ => .pure (succeeded_ok _ _)

theorem handleEventPublish_serves (hbody : orEmpty host request.body = .dict entries)
    {name : Json φ} (hname : Entries.lookup (.ofString "event_name") entries = some name)
    (ht : truthy host name = true) :
    Serves (handleEventPublish host client request) Succeeded := by
  simp only [handleEventPublish, hbody, getField_dict, hname, Option.getD_some, pure_bind, ht,
    reduceCtorEq, if_false]
  exact .bind (.call client _) fun _ _ => .pure (succeeded_ok _ _)

theorem handleTaskExecuteV2_refuses (hbody : orEmpty host request.body = .dict entries)
    (h : ¬Endpoint.taskExecuteV2.Accepts host entries) :
    Fails Invalid w (handleTaskExecuteV2 host client request) := by
  by_cases hboth : (Entries.lookup (.ofString "id") entries).isSome ∧
      (Entries.lookup (.ofString "name") entries).isSome
  · obtain ⟨id, hid⟩ := Option.isSome_iff_exists.mp hboth.1
    obtain ⟨name, hname⟩ := Option.isSome_iff_exists.mp hboth.2
    have hstrings : (isStr id && isStr name) = false := by
      rw [← Bool.not_eq_true, Bool.and_eq_true]
      intro ⟨hi, hn⟩
      refine h fun rule hr => ?_
      simp only [Endpoint.rules, List.mem_cons, List.not_mem_nil, or_false] at hr
      rcases hr with rfl | rfl
      · exact ⟨id, hid, hi⟩
      · exact ⟨name, hname, hn⟩
    simp only [handleTaskExecuteV2, hbody, requireFields_met hid hname, subscript_of_lookup hid,
      subscript_of_lookup hname, getField_dict, pure_bind, map_pure, both_pure, hstrings, if_true]
    exact Fails.bind (.raise ⟨_, rfl⟩)
  · unfold handleTaskExecuteV2
    dsimp only
    rw [hbody]
    exact (requireFields_refused hboth _).bind

theorem handleMemorySaveV2_refuses (hbody : orEmpty host request.body = .dict entries)
    (h : ¬Endpoint.memorySaveV2.Accepts host entries) :
    Fails Invalid w (handleMemorySaveV2 host client request) := by
  by_cases hboth : (Entries.lookup (.ofString "key") entries).isSome ∧
      (Entries.lookup (.ofString "value") entries).isSome
  · obtain ⟨key, hkey⟩ := Option.isSome_iff_exists.mp hboth.1
    obtain ⟨value, hvalue⟩ := Option.isSome_iff_exists.mp hboth.2
    have hmetadata : typeName ((Entries.lookup (.ofString "metadata") entries).getD .null) ≠
        "NoneType" ∧ isDict ((Entries.lookup (.ofString "metadata") entries).getD .null) = false := by
      by_contra hmet
      refine h fun rule hr => ?_
      simp only [Endpoint.rules, List.mem_cons, List.not_mem_nil, or_false] at hr
      rcases hr with rfl | rfl | rfl
      · exact hboth.1
      · exact hboth.2
      · intro given hg
        have hg : Entries.lookup (.ofString "metadata") entries = some given := hg
        rw [hg, Option.getD_some, not_and_or, not_not, Bool.not_eq_false] at hmet
        exact hmet
    simp only [handleMemorySaveV2, hbody, requireFields_met hkey hvalue, getField_dict, pure_bind,
      if_pos hmetadata]
    exact Fails.bind (.raise ⟨_, rfl⟩)
  · unfold handleMemorySaveV2
    dsimp only
    rw [hbody]
    exact (requireFields_refused hboth _).bind

-- A field that is missing, or that says nothing.
theorem not_truthy_of_unfilled {key : String}
    (h : ¬Rule.Met host (Entries.lookup (.ofString key) entries) .filled) :
    truthy host ((Entries.lookup (.ofString key) entries).getD .null) = false := by
  cases hl : Entries.lookup (.ofString key) entries with
  | none => rfl
  | some given =>
      rw [← Bool.not_eq_true]
      exact fun ht => h ⟨given, hl, ht⟩

theorem pluginHandler_refuses (hbody : orEmpty host request.body = .dict entries)
    (h : ¬Rule.Met host (Entries.lookup (.ofString "name") entries) .filled)
    (operation : Json φ → Operation φ) (done : String) :
    Fails Invalid w (pluginHandler host client operation done request) := by
  simp only [pluginHandler, hbody, getField_dict, pure_bind, not_truthy_of_unfilled h, if_true]
  exact Fails.bind (.raise ⟨_, rfl⟩)

theorem handleEventPublish_refuses (hbody : orEmpty host request.body = .dict entries)
    (h : ¬Rule.Met host (Entries.lookup (.ofString "event_name") entries) .filled) :
    Fails Invalid w (handleEventPublish host client request) := by
  simp only [handleEventPublish, hbody, getField_dict, pure_bind, not_truthy_of_unfilled h, if_true]
  exact Fails.bind (.raise ⟨_, rfl⟩)

-- A field that is not as it should be is refused before the client is called.
theorem handler_refuses (hbody : orEmpty host request.body = .dict entries) {endpoint : Endpoint}
    (h : ¬endpoint.Accepts host entries) :
    Fails Invalid w (endpoint.handler host client request) := by
  have hunmet {first second : String} (hrules : endpoint.rules =
      [(first, .present), (second, .present)]) :
      ¬((Entries.lookup (.ofString first) entries).isSome ∧
        (Entries.lookup (.ofString second) entries).isSome) := by
    intro ⟨hf, hs⟩
    refine h fun rule hr => ?_
    rw [hrules] at hr
    simp only [List.mem_cons, List.not_mem_nil, or_false] at hr
    rcases hr with rfl | rfl
    · exact hf
    · exact hs
  have hunfilled {key : String} (hrules : endpoint.rules = [(key, .filled)]) :
      ¬Rule.Met host (Entries.lookup (.ofString key) entries) .filled := by
    intro hf
    refine h fun rule hr => ?_
    rw [hrules] at hr
    rw [List.mem_singleton.mp hr]
    exact hf
  cases endpoint with
  | runtimeStart | runtimeStop | runtimeReload | contextCreate => exact (h (List.forall_mem_nil _)).elim
  | taskCreate =>
      unfold Endpoint.handler handleTaskCreate
      dsimp only
      rw [hbody]
      exact (requireFields_refused (hunmet rfl) _).bind
  | taskExecuteV1 =>
      unfold Endpoint.handler handleTaskExecuteV1
      dsimp only
      rw [hbody]
      exact (requireFields_refused (hunmet rfl) _).bind
  | taskExecuteV2 => exact handleTaskExecuteV2_refuses hbody h
  | memorySaveV1 =>
      unfold Endpoint.handler handleMemorySaveV1
      dsimp only
      rw [hbody]
      exact (requireFields_refused (hunmet rfl) _).bind
  | memorySaveV2 => exact handleMemorySaveV2_refuses hbody h
  | pluginLoad | pluginUnload | pluginStart | pluginStop =>
      exact pluginHandler_refuses hbody (hunfilled rfl) _ _
  | eventPublish => exact handleEventPublish_refuses hbody (hunfilled rfl)

-- With the fields as they should be, only what the client raises is raised.
theorem handler_serves (hbody : orEmpty host request.body = .dict entries) {endpoint : Endpoint}
    (haccept : endpoint.Accepts host entries) (hlisted : ¬endpoint.Unlisted host entries) :
    Serves (endpoint.handler host client request) Succeeded := by
  have hpresent {key : String} (hrule : (key, Rule.present) ∈ endpoint.rules) :
      ∃ value, Entries.lookup (.ofString key) entries = some value :=
    Option.isSome_iff_exists.mp (haccept _ hrule)
  cases endpoint with
  | runtimeStart | runtimeStop | runtimeReload => exact report_serves _ _ request
  | taskCreate =>
      obtain ⟨id, hid⟩ := hpresent (.head _)
      obtain ⟨name, hname⟩ := hpresent (.tail _ (.head _))
      exact handleTaskCreate_serves hbody hid hname
  | taskExecuteV1 =>
      obtain ⟨id, hid⟩ := hpresent (.head _)
      obtain ⟨name, hname⟩ := hpresent (.tail _ (.head _))
      exact handleTaskExecuteV1_serves hbody hid hname
  | taskExecuteV2 =>
      obtain ⟨id, hid, hids⟩ := haccept ("id", .string) (.head _)
      obtain ⟨name, hname, hnames⟩ := haccept ("name", .string) (.tail _ (.head _))
      refine handleTaskExecuteV2_serves hbody hid hname hids hnames fun given hg ht => ?_
      by_contra hd
      exact hlisted ⟨rfl, given, hg, ht, Bool.not_eq_true _ ▸ hd⟩
  | memorySaveV1 =>
      obtain ⟨key, hkey⟩ := hpresent (.head _)
      obtain ⟨value, hvalue⟩ := hpresent (.tail _ (.head _))
      exact handleMemorySaveV1_serves hbody hkey hvalue
  | memorySaveV2 =>
      obtain ⟨key, hkey⟩ := hpresent (.head _)
      obtain ⟨value, hvalue⟩ := hpresent (.tail _ (.head _))
      exact handleMemorySaveV2_serves hbody hkey hvalue
        (haccept ("metadata", .dictionary) (.tail _ (.tail _ (.head _))))
  | contextCreate => exact handleContextCreate_serves hbody
  | pluginLoad | pluginUnload | pluginStart | pluginStop =>
      obtain ⟨name, hname, ht⟩ := haccept ("name", .filled) (.head _)
      exact pluginHandler_serves hbody hname ht _ _
  | eventPublish =>
      obtain ⟨name, hname, ht⟩ := haccept ("event_name", .filled) (.head _)
      exact handleEventPublish_serves hbody hname ht

-- A body from which no field can be read is left before the client is called.
theorem handler_fails (hbody : ∀ entries, orEmpty host request.body ≠ .dict entries)
    {endpoint : Endpoint} (h : ¬endpoint.IgnoresBody) :
    Fails (fun _ => True) w (endpoint.handler host client request) := by
  have hrequired {first second error : String} {next : Unit → Program σ φ (APIResponse φ)}
      (hnext : Fails (fun _ => True) w (next ())) :
      Fails (fun _ => True) w
        (requireFields (orEmpty host request.body) first second error >>= next) := by
    refine Triple.bind (Triple.imp (requireFields_still first second error) (fun _ => id)
      (fun _ _ => id) fun _ _ hs => ⟨hs, trivial⟩) fun _ => hnext
  cases endpoint with
  | runtimeStart => exact (h (.inl rfl)).elim
  | runtimeStop => exact (h (.inr (.inl rfl))).elim
  | runtimeReload => exact (h (.inr (.inr rfl))).elim
  | taskCreate => exact hrequired (subscript_fails hbody _).bind
  | taskExecuteV1 => exact hrequired (subscript_fails hbody _).bind
  | taskExecuteV2 =>
      refine hrequired (Fails.bind (Fails.bind ?_))
      rw [map_eq_pure_bind]
      exact (subscript_fails hbody _).bind
  | memorySaveV1 => exact hrequired (getField_fails hbody _ _).bind
  | memorySaveV2 => exact hrequired (getField_fails hbody _ _).bind
  | contextCreate => exact (getField_fails hbody _ _).bind
  | pluginLoad | pluginUnload | pluginStart | pluginStop => exact (getField_fails hbody _ _).bind
  | eventPublish => exact (getField_fails hbody _ _).bind

end Bodies

namespace APIGateway

variable {gateway : APIGateway σ φ} {endpoint : Endpoint} {request : APIRequest φ} {w : World σ φ}

def Authenticated (gateway : APIGateway σ φ) (request : APIRequest φ) : Prop :=
  request.validate = .ok () ∧ gateway.authenticate request = .ok ()

-- The request goes to a default route for which no other handler has been registered.
structure PostsTo (gateway : APIGateway σ φ) (endpoint : Endpoint) (request : APIRequest φ) :
    Prop where
  method : request.method = "POST"
  path : request.path = endpoint.path
  route : gateway.routes.get? ("POST", endpoint.path) =
    some (endpoint.handler gateway.host gateway.client)

-- The client is not called, and the answer is that the request is not valid.
def Refused (w : World σ φ) (result : APIResponse φ × World σ φ) : Prop :=
  result.2 = w ∧ ∃ message version,
    result.1 = .failure ⟨message, .validationError, 400, []⟩ version

-- The client is called, and the answer is that all went well, or what the client has raised.
def Served (host : Host σ φ) (w : World σ φ) (result : APIResponse φ × World σ φ) : Prop :=
  ∃ calls, result.2.calls = w.calls ++ calls ∧
    (Succeeded result.1 ∧ (∀ call ∈ calls, call.raised.isNone) ∨
      ∃ e version, (∃ call ∈ calls, call.raised = some e) ∧
        result.1 = .failure (errorFor host e) version)

-- What becomes of a request, by its body.
structure Answers (host : Host σ φ) (endpoint : Endpoint) (body : Json φ) (w : World σ φ)
    (result : APIResponse φ × World σ φ) : Prop where
  ignored : endpoint.IgnoresBody → Served host w result
  refused : ∀ entries, fieldsOf host body = some entries → ¬endpoint.Accepts host entries →
    Refused w result
  served : ∀ entries, fieldsOf host body = some entries → endpoint.Accepts host entries →
    ¬endpoint.Unlisted host entries → Served host w result
  uncalled : fieldsOf host body = none → ¬endpoint.IgnoresBody → result.2 = w

-- Once a request is let in, its handler decides.
theorem dispatch_eq (hpost : gateway.PostsTo endpoint request) (hauth : gateway.Authenticated request) :
    gateway.dispatch request = endpoint.handler gateway.host gateway.client request := by
  have hroute : gateway.routes.get? (request.method, request.path) =
      some (endpoint.handler gateway.host gateway.client) := by
    rw [hpost.method, hpost.path]
    exact hpost.route
  unfold dispatch
  rw [hauth.1, hauth.2, hroute]
  rfl

theorem handleRequest_served (hpost : gateway.PostsTo endpoint request)
    (hauth : gateway.Authenticated request)
    (h : Serves (endpoint.handler gateway.host gateway.client request) Succeeded) :
    Served gateway.host w (gateway.handleRequest request w) := by
  have hrun := h w.calls w ⟨[], (List.append_nil _).symm, nofun⟩
  unfold handleRequest
  rw [dispatch_eq hpost hauth]
  revert hrun
  cases endpoint.handler gateway.host gateway.client request w with
  | ok response t =>
      intro ⟨hresponse, calls, hcalls, hnone⟩
      exact ⟨calls, hcalls, .inl ⟨hresponse, hnone⟩⟩
  | error e t =>
      intro ⟨calls, hcalls, hraised⟩
      exact ⟨calls, hcalls, .inr ⟨e, _, hraised, rfl⟩⟩

theorem handleRequest_failed {kind : Raised φ → Prop} (hpost : gateway.PostsTo endpoint request)
    (hauth : gateway.Authenticated request)
    (h : Fails kind w (endpoint.handler gateway.host gateway.client request)) :
    ∃ e version, kind e ∧
      gateway.handleRequest request w = (.failure (errorFor gateway.host e) version, w) := by
  have hrun := h w rfl
  unfold handleRequest
  rw [dispatch_eq hpost hauth]
  revert hrun
  cases endpoint.handler gateway.host gateway.client request w with
  | ok response t => exact False.elim
  | error e t =>
      intro ⟨ht, hkind⟩
      exact ⟨e, _, hkind, by rw [ht]⟩

theorem orEmpty_of_fieldsOf {host : Host σ φ} {body : Json φ} {entries : List (Str × Json φ)}
    (h : fieldsOf host body = some entries) : orEmpty host body = .dict entries := by
  unfold fieldsOf at h
  split at h
  · rename_i heq
    rw [heq, Option.some.inj h]
  · cases h

theorem orEmpty_ne_of_fieldsOf {host : Host σ φ} {body : Json φ} (h : fieldsOf host body = none)
    (entries : List (Str × Json φ)) : orEmpty host body ≠ .dict entries := by
  intro heq
  rw [fieldsOf, heq] at h
  cases h

-- A request to a default route is answered by what its handler finds in the body.
theorem handleRequest_answers (hpost : gateway.PostsTo endpoint request)
    (hauth : gateway.Authenticated request) :
    Answers gateway.host endpoint request.body w (gateway.handleRequest request w) where
  ignored h := by
    refine handleRequest_served hpost hauth ?_
    rcases h with rfl | rfl | rfl
    · exact report_serves _ _ request
    · exact report_serves _ _ request
    · exact report_serves _ _ request
  refused entries hbody h := by
    obtain ⟨e, version, ⟨message, rfl⟩, hrun⟩ :=
      handleRequest_failed hpost hauth (handler_refuses (orEmpty_of_fieldsOf hbody) h)
    rw [hrun]
    exact ⟨rfl, message, version, rfl⟩
  served entries hbody h hlisted :=
    handleRequest_served hpost hauth (handler_serves (orEmpty_of_fieldsOf hbody) h hlisted)
  uncalled hbody h := by
    obtain ⟨e, version, -, hrun⟩ :=
      handleRequest_failed hpost hauth (handler_fails (orEmpty_ne_of_fieldsOf hbody) h)
    rw [hrun]

section Samples

-- A client whose operations do nothing.
def idleReply : (operation : Operation Unit) → operation.Reply
  | .createTask id name inputData => ⟨id, name, inputData, text "pending", .null, .null⟩
  | .executeTask task => { task with status := text "completed" }
  | .health | .status | .start | .stop | .reload | .saveMemory .. | .getMemory .. | .createContext ..
  | .activeContext | .retrieveContextMemories _ | .listPlugins | .pluginStatus | .loadPlugin _
  | .unloadPlugin _ | .startPlugin _ | .stopPlugin _ | .pluginState _ | .publish .. => .null

def idleGateway : APIGateway Unit Unit :=
  .init ⟨fun _ => false, fun _ => [], fun _ => [], fun _ => (), fun _ _ => ()⟩
    (fun operation => pure (idleReply operation)) fun _ => .ok ()

def post (endpoint : Endpoint) (body : Json Unit) : APIRequest Unit :=
  ⟨"POST", endpoint.path, .dict [], .dict [], body⟩

theorem idleGateway_route (endpoint : Endpoint) (body : Json Unit) :
    idleGateway.PostsTo endpoint (post endpoint body) := by
  refine ⟨rfl, rfl, ?_⟩
  cases endpoint <;> rfl

theorem idleGateway_authenticated (endpoint : Endpoint) (body : Json Unit) :
    idleGateway.Authenticated (post endpoint body) := by
  refine ⟨?_, rfl⟩
  cases endpoint <;> rfl

theorem handleRequest_answers_task :
    Answers idleGateway.host .taskCreate (.dict []) ⟨(), []⟩
      (idleGateway.handleRequest (post .taskCreate (.dict [])) ⟨(), []⟩) :=
  handleRequest_answers (idleGateway_route _ _) (idleGateway_authenticated _ _)

-- Starting the runtime takes no body.
theorem runtimeStart_without_body :
    ¬∀ (endpoint : Endpoint) (body : Json Unit), endpoint.Malformed body →
      Refused ⟨(), []⟩ (idleGateway.handleRequest (post endpoint body) ⟨(), []⟩) := by
  intro h
  have hrefused := h .runtimeStart .null nofun
  have hcalls := congrArg (fun w => w.calls.length) hrefused.1
  revert hcalls
  decide

end Samples

end APIGateway

end YasinCore.Api
