import YasinCore.Contracts.Records

namespace YasinCore.Contracts

open YasinCore.Library

variable {φ α : Type} {host : Host φ}

def Contract.Accepted (contract : Contract φ α) (data : Value φ) : Prop :=
  ∃ record, contract.fromDict data = .ok record ∧ contract.validate record = .ok () ∧
    (contract.toDict record >>= contract.fromDict) = .ok record

-- What comes from outside is read and survives being written, or is refused with a ValueError.
def Contract.Sound (contract : Contract φ α) (data : Value φ) : Prop :=
  contract.Accepted data ∨ ∃ message, contract.fromDict data = .error (.value message)

section Untakeable

-- An element that gives a key and a value.
def IsPair (item : Value φ) : Prop := ∃ key value, elements item = some [.scalar key, value]

-- An element that is no sequence, or whose key can be no key.
def Breaks (item : Value φ) : Prop :=
  elements item = none ∨
    ∃ key value, elements item = some [key, value] ∧ ∀ scalar, key ≠ .scalar scalar

-- A value that no dictionary can be made of, for its type.
inductive Untakeable (host : Host φ) : Value φ → Prop
  | scalar {key : Key φ} (h : truthy host (.scalar key) = true) (hs : ∀ s, key ≠ .str s) :
      Untakeable host (.scalar key)
  | list {before : List (Value φ)} {item : Value φ} {after : List (Value φ)}
      (hbefore : ∀ other ∈ before, IsPair other) (h : Breaks item) :
      Untakeable host (.list (before ++ item :: after))

def TypeFails (result : Parse α) : Prop := ∃ message, result = .error (.type message)

def ValueFails (result : Parse α) : Prop := ∃ message, result = .error (.value message)

theorem toPair_ok {item : Value φ} (h : IsPair item) (index : Nat) :
    ∃ pair, toPair index item = .ok pair := by
  obtain ⟨key, value, hitem⟩ := h
  unfold toPair
  rw [hitem]
  exact ⟨(key, value), rfl⟩

theorem not_isPair_of_breaks {item : Value φ} (h : Breaks item) : ¬IsPair item := by
  rintro ⟨key, value, hitem⟩
  rcases h with h | ⟨other, _, h, hnot⟩
  · rw [hitem] at h
    cases h
  · rw [hitem] at h
    cases h
    exact hnot key rfl

-- An element is taken, breaks everything off, or has the wrong length.
theorem toPair_cases (index : Nat) (item : Value φ) :
    (IsPair item ∧ ∃ pair, toPair index item = .ok pair) ∨
      (Breaks item ∧ TypeFails (toPair index item)) ∨
        ¬Breaks item ∧ ValueFails (toPair index item) := by
  unfold toPair
  cases hitem : elements item with
  | none => exact .inr (.inl ⟨.inl hitem, _, rfl⟩)
  | some items =>
      have hlength (hne : items.length ≠ 2) : ¬Breaks item := by
        rintro (h | ⟨key, value, h, -⟩)
        · rw [hitem] at h
          cases h
        · rw [hitem] at h
          cases h
          exact hne rfl
      match items with
      | [] => exact .inr (.inr ⟨hlength (by simp), _, rfl⟩)
      | [.scalar _] | [.list _] | [.dict _] => exact .inr (.inr ⟨hlength (by simp), _, rfl⟩)
      | .scalar _ :: _ :: _ :: _ | .list _ :: _ :: _ :: _ | .dict _ :: _ :: _ :: _ =>
          exact .inr (.inr ⟨hlength (by simp), _, rfl⟩)
      | [.scalar key, value] => exact .inl ⟨⟨key, value, hitem⟩, _, rfl⟩
      | [.list _, value] => exact .inr (.inl ⟨.inr ⟨_, value, hitem, nofun⟩, _, rfl⟩)
      | [.dict _, value] => exact .inr (.inl ⟨.inr ⟨_, value, hitem, nofun⟩, _, rfl⟩)

-- The first element that is not a pair decides.
theorem putAll_cases (index : Nat) (entries : Entries φ) (items : List (Value φ)) :
    (∃ result, putAll host index entries items = .ok result) ∨
      ValueFails (putAll host index entries items) ∨ TypeFails (putAll host index entries items) := by
  induction items generalizing index entries with
  | nil => exact .inl ⟨entries, rfl⟩
  | cons item items ih =>
      unfold putAll
      rcases toPair_cases index item with ⟨-, pair, hp⟩ | ⟨-, message, hp⟩ | ⟨-, message, hp⟩
      · rw [hp]
        exact ih _ _
      · rw [hp]
        exact .inr (.inr ⟨message, rfl⟩)
      · rw [hp]
        exact .inr (.inl ⟨message, rfl⟩)

theorem putAll_typeFails_iff (index : Nat) (entries : Entries φ) (items : List (Value φ)) :
    TypeFails (putAll host index entries items) ↔ ∃ before item after,
      items = before ++ item :: after ∧ (∀ other ∈ before, IsPair other) ∧ Breaks item := by
  induction items generalizing index entries with
  | nil => exact ⟨nofun, fun ⟨before, _, _, h, _⟩ => by cases before <;> cases h⟩
  | cons item items ih =>
      unfold putAll
      rcases toPair_cases index item with ⟨hpair, pair, hp⟩ | ⟨hbreaks, message, hp⟩ | ⟨hnot, message, hp⟩
      · rw [hp]
        refine (ih _ _).trans ⟨?_, ?_⟩
        · rintro ⟨before, other, after, rfl, hbefore, hbreaks⟩
          exact ⟨item :: before, other, after, rfl, List.forall_mem_cons.mpr ⟨hpair, hbefore⟩, hbreaks⟩
        · rintro ⟨before, other, after, hitems, hbefore, hbreaks⟩
          cases before with
          | nil =>
              rw [(List.cons.inj hitems).1] at hpair
              exact (not_isPair_of_breaks hbreaks hpair).elim
          | cons first before =>
              exact ⟨before, other, after, (List.cons.inj hitems).2,
                fun one ho => hbefore one (.tail _ ho), hbreaks⟩
      · rw [hp]
        exact ⟨fun _ => ⟨[], item, items, rfl, nofun, hbreaks⟩, fun _ => ⟨message, rfl⟩⟩
      · rw [hp]
        refine ⟨nofun, ?_⟩
        rintro ⟨before, other, after, hitems, hbefore, hbreaks⟩
        cases before with
        | nil =>
            rw [← (List.cons.inj hitems).1] at hbreaks
            exact (hnot hbreaks).elim
        | cons first before =>
            have hfirst := hbefore first List.mem_cons_self
            rw [← (List.cons.inj hitems).1] at hfirst
            obtain ⟨pair, hok⟩ := toPair_ok hfirst index
            rw [hp] at hok
            cases hok

theorem dictOf_cases (value : Value φ) : (∃ result, dictOf host value = .ok result) ∨
    ValueFails (dictOf host value) ∨ TypeFails (dictOf host value) := by
  match value with
  | .dict entries => exact .inl ⟨entries, rfl⟩
  | .list items => exact putAll_cases 0 [] items
  | .scalar (.str s) => exact putAll_cases 0 [] _
  | .scalar .null | .scalar (.bool _) | .scalar (.int _) | .scalar (.float _) =>
      exact .inr (.inr ⟨_, rfl⟩)

theorem dictOf_orElse_typeFails_iff (value : Value φ) :
    TypeFails (dictOf host (orElse host value (.dict []))) ↔ Untakeable host value := by
  unfold orElse
  split
  · rename_i ht
    cases value with
    | scalar key =>
        cases key with
        | str s =>
            refine (putAll_typeFails_iff 0 [] _).trans ⟨?_, ?_⟩
            · -- a character is a sequence of itself, and so no pair
              rintro ⟨before, item, after, hitems, -, hbreaks⟩
              have hm : item ∈ s.map fun c => (.scalar (.str [c]) : Value φ) := by
                rw [hitems]
                exact List.mem_append_right _ List.mem_cons_self
              obtain ⟨c, -, rfl⟩ := List.mem_map.mp hm
              rcases hbreaks with h | ⟨key, value, h, -⟩ <;> cases h
            · rintro (⟨-, hs⟩ | _)
              exact (hs s rfl).elim
        | null | bool | int | float => exact ⟨fun _ => .scalar ht nofun, fun _ => ⟨_, rfl⟩⟩
    | list items =>
        refine (putAll_typeFails_iff 0 [] items).trans ⟨?_, ?_⟩
        · rintro ⟨before, item, after, rfl, hbefore, hbreaks⟩
          exact .list hbefore hbreaks
        · rintro (_ | ⟨hbefore, hbreaks⟩)
          exact ⟨_, _, _, rfl, hbefore, hbreaks⟩
    | dict entries => exact ⟨nofun, nofun⟩
  · rename_i ht
    refine ⟨nofun, ?_⟩
    rintro (⟨h, -⟩ | ⟨-, -⟩)
    · exact (ht h).elim
    · exact (ht (by simp [truthy])).elim

end Untakeable

section Coercions

-- The text of a member, in whatever case and with blanks around it.
def Known (members : List (Str × α)) (normalize : Str → Str) (value : Value φ) : Prop :=
  ∃ s member, value = .scalar (.str s) ∧
    Library.Entries.lookup (normalize (strip s)) members = some member

theorem coerce_cases (members : List (Str × α)) (normalize : Str → Str) (what : String)
    (values : List String) (value : Value φ) :
    (Known members normalize value ∧ ∃ member, coerce host members normalize what values value =
      .ok member) ∨ ¬Known members normalize value ∧
        ValueFails (coerce host members normalize what values value) := by
  have hother (hnot : ∀ s, value ≠ .scalar (.str s)) : ¬Known members normalize value :=
    fun ⟨s, _, h, _⟩ => hnot s h
  match value with
  | .scalar (.str s) =>
      unfold coerce
      dsimp only
      cases hl : Library.Entries.lookup (normalize (strip s)) members with
      | some member => exact .inl ⟨⟨s, member, rfl, hl⟩, member, rfl⟩
      | none =>
          refine .inr ⟨?_, _, rfl⟩
          rintro ⟨t, member, ht, h⟩
          cases ht
          rw [hl] at h
          cases h
  | .scalar .null | .scalar (.bool _) | .scalar (.int _) | .scalar (.float _) | .list _ | .dict _ =>
      exact .inr ⟨hother nofun, _, rfl⟩

theorem coerce_text {all : List α} {value : α → String} {normalize : Str → Str} {member : α}
    (hstrip : strip (.ofString (value member)) = .ofString (value member))
    (hnormal : normalize (.ofString (value member)) = .ofString (value member))
    (hlookup : Library.Entries.lookup (.ofString (value member)) (members all value) = some member)
    (what : String) (values : List String) :
    coerce host (members all value) normalize what values (text (value member)) = .ok member := by
  unfold coerce text
  dsimp only
  rw [hstrip, hnormal, hlookup]
  rfl

theorem coerceStatusValue_text (status : ServiceStatusValue) :
    coerceStatusValue host (text status.value) = .ok status := by
  refine coerce_text ?_ (host.upper_eq _ ?_) ?_ _ _
  · cases status <;> decide
  · cases status <;> decide
  · cases status <;> decide

theorem coerceControlAction_text (action : ControlAction) :
    coerceControlAction host (text action.value) = .ok action := by
  refine coerce_text ?_ (host.lower_eq _ ?_) ?_ _ _
  · cases action <;> decide
  · cases action <;> decide
  · cases action <;> decide

theorem coerceHealthState_text (state : HealthState) :
    coerceHealthState host (text state.value) = .ok state := by
  refine coerce_text ?_ (host.upper_eq _ ?_) ?_ _ _
  · cases state <;> decide
  · cases state <;> decide
  · cases state <;> decide

theorem coerceErrorCode_text (code : ErrorCode) :
    coerceErrorCode host (text code.value) = .ok code := by
  refine coerce_text ?_ (host.upper_eq _ ?_) ?_ _ _
  · cases code <;> decide
  · cases code <;> decide
  · cases code <;> decide

end Coercions

section Fields

theorem field_fields (name : String) (default : Value φ) (entries : List (String × Value φ)) :
    field name default (fields entries) = (entries.lookup name).getD default := by
  induction entries with
  | nil => rfl
  | cons entry entries ih =>
      unfold fields at ih ⊢
      rw [List.map_cons, List.lookup_cons]
      unfold field
      by_cases h : name = entry.1
      · rw [if_pos (congrArg Str.ofString h.symm), beq_iff_eq.mpr h]
        rfl
      · have hne : Str.ofString entry.1 ≠ .ofString name :=
          fun heq => h (Str.ofString_injective heq).symm
        rw [if_neg hne, beq_eq_false_iff_ne.mpr h, ih]

theorem orElse_str (s : Str) :
    orElse host (.scalar (.str s)) (text "") = .scalar (.str s) := by
  cases s with
  | nil => rfl
  | cons c s => rfl

theorem dictOf_dict (entries : Entries φ) :
    dictOf host (orElse host (.dict entries) (.dict [])) = .ok entries := by
  cases entries with
  | nil => rfl
  | cons entry entries => rfl

theorem requireText_cases (message : String) (value : Value φ) :
    ((∃ s, value = .scalar (.str s)) ∧ requireText message value = .ok ()) ∨
      ValueFails (requireText message value) := by
  match value with
  | .scalar (.str s) => exact .inl ⟨⟨s, rfl⟩, rfl⟩
  | .scalar .null | .scalar (.bool _) | .scalar (.int _) | .scalar (.float _) | .list _ | .dict _ =>
      exact .inr ⟨_, rfl⟩

theorem str_of_requireText {message : String} {value : Value φ}
    (h : requireText message value = .ok ()) : ∃ s, value = .scalar (.str s) := by
  rcases requireText_cases message value with ⟨hs, -⟩ | ⟨other, hv⟩
  · exact hs
  · rw [hv] at h
    cases h

theorem requireName_cases (message : String) (value : Value φ) :
    requireName message value = .ok () ∨ ValueFails (requireName message value) := by
  match value with
  | .scalar (.str s) =>
      unfold requireName
      dsimp only
      split
      · exact .inr ⟨_, rfl⟩
      · exact .inl rfl
  | .scalar .null | .scalar (.bool _) | .scalar (.int _) | .scalar (.float _) | .list _ | .dict _ =>
      exact .inr ⟨_, rfl⟩

theorem validatePid_cases (fieldName : String) (value : Value φ) :
    validatePid fieldName value = .ok () ∨ ValueFails (validatePid fieldName value) := by
  match value with
  | .scalar (.int n) =>
      unfold validatePid
      dsimp only
      split
      · exact .inr ⟨_, rfl⟩
      · exact .inl rfl
  | .scalar .null => exact .inl rfl
  | .scalar (.str _) | .scalar (.bool _) | .scalar (.float _) | .list _ | .dict _ =>
      exact .inr ⟨_, rfl⟩

end Fields

section Records

theorem bind_ok {β : Type} {result : Parse α} {value : α} (h : result = .ok value)
    (next : α → Parse β) : (result >>= next) = next value := by
  rw [h]
  rfl

theorem of_bind_ok {β : Type} {result : Parse α} {next : α → Parse β} {value : β}
    (h : (result >>= next) = .ok value) : ∃ given, result = .ok given ∧ next given = .ok value := by
  cases result with
  | ok given => exact ⟨given, rfl, h⟩
  | error e => cases h

theorem ValueFails.bind {β : Type} {result : Parse α} (h : ValueFails result) (next : α → Parse β) :
    ValueFails (result >>= next) := by
  obtain ⟨message, h⟩ := h
  exact ⟨message, by rw [h]; rfl⟩

-- Two checks one after the other.
theorem and_then_cases {first second : Parse Unit} (hf : first = .ok () ∨ ValueFails first)
    (hs : second = .ok () ∨ ValueFails second) :
    (first >>= fun _ => second) = .ok () ∨ ValueFails (first >>= fun _ => second) := by
  rcases hf with hf | hf
  · rw [bind_ok hf]
    exact hs
  · exact .inr (hf.bind _)

-- A record with one field that a dictionary is made of, after a text has been recognised.
theorem Contract.sound_iff {β γ : Type} {contract : Contract φ α} {data : Value φ} {known : Parse β}
    {taken : Parse γ} {build : β → γ → α}
    (hdata : contract.fromDict data = known >>= fun member => taken >>= fun rest =>
      contract.validate (build member rest) >>= fun _ => return build member rest)
    (hknown : (∃ member, known = .ok member) ∨ ValueFails known)
    (htaken : (∃ rest, taken = .ok rest) ∨ ValueFails taken ∨ TypeFails taken)
    (hbuild : ∀ member rest, contract.validate (build member rest) = .ok () ∨
      ValueFails (contract.validate (build member rest)))
    (hround : ∀ member rest, contract.validate (build member rest) = .ok () →
      (contract.toDict (build member rest) >>= contract.fromDict) = .ok (build member rest)) :
    contract.Sound data ↔ ¬((∃ member, known = .ok member) ∧ TypeFails taken) := by
  rcases hknown with ⟨member, hk⟩ | hk
  · rw [bind_ok hk] at hdata
    rcases htaken with ⟨rest, ht⟩ | ht | ⟨message, ht⟩
    · have hnot : ¬TypeFails taken := by
        rintro ⟨message, h⟩
        rw [ht] at h
        cases h
      refine iff_of_true ?_ fun h => hnot h.2
      rw [bind_ok ht] at hdata
      rcases hbuild member rest with hb | hb
      · rw [bind_ok hb] at hdata
        exact .inl ⟨build member rest, hdata, hb, hround member rest hb⟩
      · exact .inr (hdata ▸ hb.bind _)
    · have hnot : ¬TypeFails taken := by
        obtain ⟨message, hv⟩ := ht
        rintro ⟨other, h⟩
        rw [hv] at h
        cases h
      exact iff_of_true (.inr (hdata ▸ ht.bind _)) fun h => hnot h.2
    · refine iff_of_false ?_ (not_not_intro ⟨⟨member, hk⟩, message, ht⟩)
      rw [ht] at hdata
      rintro (⟨record, h, -⟩ | ⟨other, h⟩)
      · cases hdata.symm.trans h
      · cases hdata.symm.trans h
  · have hnot : ¬∃ member, known = .ok member := by
      obtain ⟨message, hv⟩ := hk
      rintro ⟨member, h⟩
      rw [hv] at h
      cases h
    exact iff_of_true (.inr (hdata ▸ hk.bind _)) fun h => hnot h.1

namespace ServiceStatus

theorem validate_cases (snapshot : ServiceStatus φ) :
    snapshot.validate = .ok () ∨ ValueFails snapshot.validate :=
  and_then_cases (requireName_cases _ _) (and_then_cases (validatePid_cases _ _)
    ((requireText_cases _ _).imp_left And.right))

theorem message_of_validate {snapshot : ServiceStatus φ} (h : snapshot.validate = .ok ()) :
    ∃ s, snapshot.message = .scalar (.str s) := by
  obtain ⟨_, -, h⟩ := of_bind_ok h
  obtain ⟨_, -, h⟩ := of_bind_ok h
  exact str_of_requireText h

theorem fromDict_toDict {snapshot : ServiceStatus φ} (h : snapshot.validate = .ok ()) :
    (snapshot.toDict >>= fromDict host) = .ok snapshot := by
  obtain ⟨s, hs⟩ := message_of_validate h
  unfold toDict
  rw [bind_ok h, pure_bind]
  simp only [fromDict, field_fields, List.lookup_cons, String.reduceBEq, beq_self_eq_true,
    Option.getD_some, coerceStatusValue_text, dictOf_dict, truthy, hs, orElse_str]
  rw [← hs]
  exact bind_ok h _

end ServiceStatus

namespace HealthReport

theorem validate_cases (report : HealthReport φ) :
    report.validate = .ok () ∨ ValueFails report.validate :=
  and_then_cases (requireName_cases _ _) ((requireText_cases _ _).imp_left And.right)

theorem message_of_validate {report : HealthReport φ} (h : report.validate = .ok ()) :
    ∃ s, report.message = .scalar (.str s) := by
  obtain ⟨_, -, h⟩ := of_bind_ok h
  exact str_of_requireText h

theorem fromDict_toDict {report : HealthReport φ} (h : report.validate = .ok ()) :
    (report.toDict >>= fromDict host) = .ok report := by
  obtain ⟨s, hs⟩ := message_of_validate h
  unfold toDict
  rw [bind_ok h, pure_bind]
  simp only [fromDict, field_fields, List.lookup_cons, String.reduceBEq, beq_self_eq_true,
    Option.getD_some, coerceHealthState_text, dictOf_dict, hs, orElse_str]
  rw [← hs]
  exact bind_ok h _

end HealthReport

namespace ControlResult

theorem validate_cases (verdict : ControlResult φ) :
    verdict.validate = .ok () ∨ ValueFails verdict.validate :=
  and_then_cases (requireName_cases _ _) (and_then_cases (validatePid_cases _ _)
    ((requireText_cases _ _).imp_left And.right))

theorem message_of_validate {verdict : ControlResult φ} (h : verdict.validate = .ok ()) :
    ∃ s, verdict.message = .scalar (.str s) := by
  obtain ⟨_, -, h⟩ := of_bind_ok h
  obtain ⟨_, -, h⟩ := of_bind_ok h
  exact str_of_requireText h

theorem fromDict_toDict {verdict : ControlResult φ} (h : verdict.validate = .ok ()) :
    (verdict.toDict >>= fromDict host) = .ok verdict := by
  obtain ⟨s, hs⟩ := message_of_validate h
  unfold toDict
  rw [bind_ok h, pure_bind]
  simp only [fromDict, field_fields, List.lookup_cons, String.reduceBEq, beq_self_eq_true,
    Option.getD_some, coerceControlAction_text, coerceStatusValue_text, truthy, hs, orElse_str]
  rw [← hs]
  exact bind_ok h _

end ControlResult

theorem redactText_unknown :
    redactText 500 (.ofString "Unknown error.") = .ofString "Unknown error." := by
  have hsecret : secretPattern.Absent (Str.ofString "Unknown error.") := by
    have hall : ∀ rest ∈ (Str.ofString "Unknown error.").tails, secretMatch rest = none := by decide
    exact fun rest hr => hall rest ((List.mem_tails _ _).mpr hr)
  have hjwt : jwtPattern.Absent (Str.ofString "Unknown error.") := by
    have hall : ∀ rest ∈ (Str.ofString "Unknown error.").tails, jwtMatch rest = none := by decide
    exact fun rest hr => hall rest ((List.mem_tails _ _).mpr hr)
  unfold redactText
  rw [hsecret.sub_eq, hjwt.sub_eq]
  decide

-- What has been redacted stays as it is.
theorem redactSecrets_redactSecrets (value : Value φ) :
    redactSecrets host (.scalar (.str (redactSecrets host value 500))) 500 =
      redactSecrets host value 500 := by
  change redactText 500 (redactSecrets host value 500) = redactSecrets host value 500
  unfold redactSecrets
  cases strOf host value with
  | some s => exact redactText_redactText 500 s
  | none => exact redactText_unknown

namespace ErrorInfo

theorem fromDict_toDict (code : ErrorCode) (message : Value φ) (details : Entries φ) :
    ((init host code message details).toDict >>= fromDict host) =
      .ok (init host code message details) := by
  have hvalid : (init host code message details).validate = .ok () := rfl
  unfold toDict
  rw [bind_ok hvalid, pure_bind]
  simp only [fromDict, init, field_fields, List.lookup_cons, String.reduceBEq, beq_self_eq_true,
    Option.getD_some, coerceErrorCode_text, dictOf_dict, orElse_str, redactSecrets_redactSecrets]
  rfl

end ErrorInfo

-- Redacting twice is redacting once, at every limit, and so a record that is written and read again
-- is the same one.
theorem redaction_stable (host : Host φ) :
    (∀ (s : Str) (limit : Int),
      redactSecrets host (.scalar (.str (redactSecrets host (.scalar (.str s)) limit))) limit =
        redactSecrets host (.scalar (.str s)) limit) ∧
      ∀ (code : ErrorCode) (message : Value φ) (details : Entries φ),
        ((ErrorInfo.init host code message details).toDict >>= ErrorInfo.fromDict host) =
          .ok (ErrorInfo.init host code message details) := by
  constructor
  · intro s limit
    exact redactText_redactText limit s
  · exact ErrorInfo.fromDict_toDict

end Records

inductive Record
  | serviceStatus
  | controlResult
  | healthReport
  | errorInfo

namespace Record

def Sound (host : Host φ) (data : Value φ) : Record → Prop
  | serviceStatus => (ServiceStatus.contract host).Sound data
  | controlResult => (ControlResult.contract host).Sound data
  | healthReport => (HealthReport.contract host).Sound data
  | errorInfo => (ErrorInfo.contract host).Sound data

-- The field that is copied into a dictionary holds something that no dictionary can be made of, and
-- nothing that comes before has been refused.
def Stumbles (host : Host φ) (data : Value φ) : Record → Prop
  | serviceStatus => ∃ entries, data = .dict entries ∧
      Known (members ServiceStatusValue.all ServiceStatusValue.value) host.upper
        (field "status" (text "UNKNOWN") entries) ∧
      Untakeable host (field "extra" (.dict []) entries)
  | controlResult => False
  | healthReport => ∃ entries, data = .dict entries ∧
      Known (members HealthState.all HealthState.value) host.upper
        (field "state" (text "UNKNOWN") entries) ∧
      Untakeable host (field "details" (.dict []) entries)
  | errorInfo => ∃ entries, data = .dict entries ∧
      Known (members ErrorCode.all ErrorCode.value) host.upper
        (field "code" (text "UNKNOWN") entries) ∧
      Untakeable host (field "details" (.dict []) entries)

theorem coerce_ok_iff (members : List (Str × α)) (normalize : Str → Str) (what : String)
    (values : List String) (value : Value φ) :
    (∃ member, coerce host members normalize what values value = .ok member) ↔
      Known members normalize value := by
  have hcases := @coerce_cases φ α host members normalize what values value
  rcases hcases with ⟨hk, hm⟩ | ⟨hk, message, hv⟩
  · exact iff_of_true hm hk
  · refine iff_of_false ?_ hk
    rintro ⟨member, h⟩
    rw [hv] at h
    cases h

theorem coerce_total (members : List (Str × α)) (normalize : Str → Str) (what : String)
    (values : List String) (value : Value φ) :
    (∃ member, coerce host members normalize what values value = .ok member) ∨
      ValueFails (coerce host members normalize what values value) := by
  have hcases := @coerce_cases φ α host members normalize what values value
  exact hcases.imp And.right And.right

theorem coerce_not_typeFails (members : List (Str × α)) (normalize : Str → Str) (what : String)
    (values : List String) (value : Value φ) :
    ¬TypeFails (coerce host members normalize what values value) := by
  rintro ⟨message, h⟩
  rcases @coerce_total φ α host members normalize what values value with ⟨member, hm⟩ | ⟨other, hm⟩
  · cases hm.symm.trans h
  · cases hm.symm.trans h

-- What stops a parser that first recognises one field and then copies another one.
theorem stumbles_iff {members : List (Str × α)} {normalize : Str → Str} {what : String}
    {values : List String} {known free : Entries φ → Value φ} (data : Entries φ) :
    ((∃ member, coerce host members normalize what values (known data) = .ok member) ∧
        TypeFails (dictOf host (orElse host (free data) (.dict [])))) ↔
      ∃ entries, Value.dict data = .dict entries ∧ Known members normalize (known entries) ∧
        Untakeable host (free entries) := by
  rw [coerce_ok_iff, dictOf_orElse_typeFails_iff]
  constructor
  · exact fun h => ⟨data, rfl, h⟩
  · rintro ⟨entries, heq, h⟩
    cases heq
    exact h

theorem serviceStatus_sound_iff (data : Value φ) :
    serviceStatus.Sound host data ↔ ¬serviceStatus.Stumbles host data := by
  cases data with
  | dict entries =>
      exact (Contract.sound_iff rfl (coerce_total _ _ _ _ _) (dictOf_cases _)
        (fun _ _ => ServiceStatus.validate_cases _) fun _ _ h => ServiceStatus.fromDict_toDict h).trans
          (not_congr (stumbles_iff entries))
  | scalar | list => exact iff_of_true (.inr ⟨_, rfl⟩) fun ⟨_, h, _⟩ => nomatch h

theorem healthReport_sound_iff (data : Value φ) :
    healthReport.Sound host data ↔ ¬healthReport.Stumbles host data := by
  cases data with
  | dict entries =>
      exact (Contract.sound_iff rfl (coerce_total _ _ _ _ _) (dictOf_cases _)
        (fun _ _ => HealthReport.validate_cases _) fun _ _ h => HealthReport.fromDict_toDict h).trans
          (not_congr (stumbles_iff entries))
  | scalar | list => exact iff_of_true (.inr ⟨_, rfl⟩) fun ⟨_, h, _⟩ => nomatch h

theorem errorInfo_sound_iff (data : Value φ) :
    errorInfo.Sound host data ↔ ¬errorInfo.Stumbles host data := by
  cases data with
  | dict entries =>
      exact (Contract.sound_iff rfl (coerce_total _ _ _ _ _) (dictOf_cases _)
        (fun _ _ => .inl rfl) fun _ _ _ => ErrorInfo.fromDict_toDict _ _ _).trans
          (not_congr (stumbles_iff entries))
  | scalar | list => exact iff_of_true (.inr ⟨_, rfl⟩) fun ⟨_, h, _⟩ => nomatch h

theorem controlResult_sound (data : Value φ) : controlResult.Sound host data := by
  cases data with
  | dict entries =>
      -- in the place of the free field there is a second coercion
      exact (Contract.sound_iff rfl (coerce_total _ _ _ _ _) ((coerce_total _ _ _ _ _).imp_right .inl)
        (fun _ _ => ControlResult.validate_cases _)
        fun _ _ h => ControlResult.fromDict_toDict h).mpr fun h => coerce_not_typeFails _ _ _ _ _ h.2
  | scalar | list => exact .inr ⟨_, rfl⟩

-- Every record is read or refused with a ValueError, unless its free field stops the parser.
theorem sound_iff_not_stumbles (host : Host φ) (data : Value φ) (record : Record) :
    record.Sound host data ↔ ¬record.Stumbles host data := by
  cases record with
  | serviceStatus => exact serviceStatus_sound_iff data
  | controlResult => exact iff_of_true (controlResult_sound data) not_false
  | healthReport => exact healthReport_sound_iff data
  | errorInfo => exact errorInfo_sound_iff data

section Samples

-- An interpreter for texts in ASCII that are in the right case.
def plainHost : Host Unit where
  isZero _ := false
  repr _ := []
  text? _ := none
  upper := id
  lower := id
  sameKey _ _ := false
  upper_eq _ _ := rfl
  lower_eq _ _ := rfl

def countedExtra : Value Unit :=
  .dict (fields [("name", text "web"), ("extra", .scalar (.int 5))])

-- A number where a dictionary is expected raises a TypeError.
theorem countedExtra_unsound : ¬serviceStatus.Sound plainHost countedExtra := by
  rw [serviceStatus_sound_iff, not_not]
  refine ⟨_, rfl, ⟨.ofString "UNKNOWN", .unknown, ?_, ?_⟩, ?_⟩
  · rw [field_fields]
    rfl
  · decide
  · rw [field_fields]
    exact .scalar rfl nofun

end Samples

end Record

end YasinCore.Contracts
