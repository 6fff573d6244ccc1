import YasinCore.Library.Isoformat
import YasinCore.Library.Json.Compact

namespace YasinCore.Events.Transport

open YasinCore.Library

variable {φ : Type}

inductive Raised
  | typeError (message : String)
  | attributeError (message : String)
  deriving DecidableEq

def typeName : Json φ → String
  | .null => "NoneType"
  | .bool _ => "bool"
  | .int _ => "int"
  | .float _ => "float"
  | .str _ => "str"
  | .list _ => "list"
  | .dict _ => "dict"
  | .object _ => "object"

def truthy (isZero : φ → Bool) : Json φ → Bool
  | .null => false
  | .bool value => value
  | .int n => n ≠ 0
  | .float x => !isZero x
  | .str s => !s.isEmpty
  | .list items => !items.isEmpty
  | .dict entries => !entries.isEmpty
  | .object _ => true

-- value or other
def orElse (isZero : φ → Bool) (value other : Json φ) : Json φ :=
  if truthy isZero value then value else other

-- key in value
def contains (key : Str) : Json φ → Except Raised Bool
  | .dict entries => return (Entries.lookup key entries).isSome
  | .list items => return items.any fun
      | .str s => s = key
      | _ => false
  | .str s => return decide (key <:+: s)
  | value => throw (.typeError ("argument of type '" ++ typeName value ++ "' is not iterable"))

-- value[key] = item
def setItem (key : Str) (item : Json φ) : Json φ → Except Raised (Json φ)
  | .dict entries => return .dict (Entries.assign key item entries)
  | .list _ => throw (.typeError "list indices must be integers or slices, not str")
  | value => throw (.typeError ("'" ++ typeName value ++ "' object does not support item assignment"))

-- An event as an object: what the constructor sets, apart from the dictionary that it also is.
structure Event (φ : Type) where
  name : Json φ
  payload : Json φ
  metadata : Json φ
  timestamp : DateTime
  eventId : Json φ

-- The identifiers that are generated
abbrev Uuid := { id : String // id ≠ "" }

-- A core field is written into the metadata unless it is there.
def mirror (key : String) (value metadata : Json φ) : Except Raised (Json φ) := do
  if ← contains (.ofString key) metadata then return metadata
  else setItem (.ofString key) value metadata

def orEmptyDict : Json φ → Json φ
  | .null => .dict []
  | payload => payload

namespace Event

variable (isZero : φ → Bool) (now : DateTime) (uuid : Uuid)

def init (name payload metadata : Json φ) (timestamp : Option DateTime) (eventId : Json φ) :
    Except Raised (Event φ) := do
  let timestamp := timestamp.getD now
  let eventId := orElse isZero eventId (.str (.ofString uuid.val))
  let metadata ← mirror "event_id" eventId (orElse isZero metadata (.dict []))
  let metadata ← mirror "timestamp" (.str timestamp.isoformat) metadata
  return ⟨name, orEmptyDict payload, metadata, timestamp, eventId⟩

def toDict (event : Event φ) : Json φ :=
  .dict [(.ofString "event_id", event.eventId), (.ofString "name", event.name),
    (.ofString "payload", event.payload), (.ofString "metadata", event.metadata),
    (.ofString "timestamp", .str event.timestamp.isoformat)]

-- A text that is no date and time is passed over, and so is a missing one.
def readTimestamp : Json φ → Except Raised (Option DateTime)
  | .str s => return DateTime.fromisoformat s
  | value =>
      if truthy isZero value then throw (.typeError "fromisoformat: argument must be str")
      else return none

def fromDict : Json φ → Except Raised (Event φ)
  | .dict data => do
      let field (key : String) := Entries.lookup (.ofString key) data
      let timestamp ← readTimestamp isZero ((field "timestamp").getD .null)
      init isZero now uuid ((field "name").getD (.str (.ofString "unknown"))) ((field "payload").getD .null)
        ((field "metadata").getD .null) timestamp ((field "event_id").getD .null)
  | value => throw (.attributeError ("'" ++ typeName value ++ "' object has no attribute 'get'"))

-- The receiving end of a transport that carries texts
def receive (floats : Floats φ) (text : List Char) : Option (Except Raised (Event φ)) :=
  (Json.decode floats text).map (fromDict isZero now uuid)

end Event

section Metadata

variable {isZero : φ → Bool} {key other : String} {value before metadata : Json φ}

theorem lookup_isSome_assign {entries : List (Str × Json φ)} {k l : Str}
    (h : (Entries.lookup k entries).isSome) : (Entries.lookup k (Entries.assign l value entries)).isSome := by
  rw [Entries.lookup_assign]
  split
  · rfl
  · exact h

theorem mirror_cases (h : mirror key value before = .ok metadata) :
    contains (.ofString key) before = .ok true ∧ metadata = before ∨
      ∃ entries, before = .dict entries ∧ metadata = .dict (Entries.assign (.ofString key) value entries) := by
  obtain ⟨found, hfound, h⟩ := Json.bind_eq_ok.mp h
  cases found with
  | true => exact .inl ⟨hfound, (Except.ok.inj h).symm⟩
  | false =>
      cases before with
      | dict entries => exact .inr ⟨entries, rfl, (Except.ok.inj h).symm⟩
      | _ => cases h

-- After it, the field is in the metadata.
theorem mirror_contains (h : mirror key value before = .ok metadata) :
    contains (.ofString key) metadata = .ok true := by
  rcases mirror_cases h with ⟨hfound, rfl⟩ | ⟨entries, rfl, rfl⟩
  · exact hfound
  · simp [contains, Entries.lookup_assign, pure, Except.pure]

theorem mirror_keeps (h : mirror key value before = .ok metadata)
    (hother : contains (.ofString other) before = .ok true) : contains (.ofString other) metadata = .ok true := by
  rcases mirror_cases h with ⟨-, rfl⟩ | ⟨entries, rfl, rfl⟩
  · exact hother
  · have hsome : (Entries.lookup (.ofString other) entries).isSome = true := Except.ok.inj hother
    exact congrArg Except.ok (lookup_isSome_assign hsome)

theorem mirror_of_contains (h : contains (.ofString key) metadata = .ok true) :
    mirror key value metadata = .ok metadata := by
  rw [mirror, h]
  rfl

-- What holds a field is not empty.
theorem truthy_of_contains (hkey : key ≠ "") (h : contains (.ofString key) metadata = .ok true) :
    truthy isZero metadata = true := by
  cases metadata with
  | dict entries =>
      cases entries with
      | nil => cases h
      | cons => rfl
  | list items =>
      cases items with
      | nil => cases h
      | cons => rfl
  | str s =>
      cases s with
      | nil =>
          have hinfix : Str.ofString key <:+: [] := of_decide_eq_true (Except.ok.inj h)
          have hnil : key.toList.map CodePoint.ofChar = [] := List.infix_nil.mp hinfix
          exact absurd (String.toList_eq_nil_iff.mp (List.map_eq_nil_iff.mp hnil)) hkey
      | cons => rfl
  | object => rfl
  | _ => cases h

theorem mirror_representable {finite : φ → Prop} (hv : value.Representable finite)
    (hb : before.Representable finite) (h : mirror key value before = .ok metadata) :
    metadata.Representable finite := by
  rcases mirror_cases h with ⟨-, rfl⟩ | ⟨entries, rfl, rfl⟩
  · exact hb
  · exact Json.representable_assign (Json.paired_ofString key) hv hb

end Metadata

namespace Event

variable {floats : Floats φ} {finite : φ → Prop} {isZero : φ → Bool} {now : DateTime} {uuid : Uuid}
  {name payload metadata eventId : Json φ} {timestamp : Option DateTime} {event : Event φ}

-- What every event has, however it was made: an identifier, a payload that is not None, and
-- metadata that name its identifier and its time.
structure Complete (isZero : φ → Bool) (event : Event φ) : Prop where
  eventId : truthy isZero event.eventId = true
  payload : event.payload ≠ .null
  hasId : contains (.ofString "event_id") event.metadata = .ok true
  hasTimestamp : contains (.ofString "timestamp") event.metadata = .ok true

theorem init_complete (h : init isZero now uuid name payload metadata timestamp eventId = .ok event) :
    Complete isZero event := by
  obtain ⟨withId, hid, h⟩ := Json.bind_eq_ok.mp h
  obtain ⟨withTime, htime, h⟩ := Json.bind_eq_ok.mp h
  obtain rfl := Except.ok.inj h
  refine ⟨?_, ?_, mirror_keeps htime (mirror_contains hid), mirror_contains htime⟩
  · dsimp only
    unfold orElse
    split
    · assumption
    · have hne : Str.ofString uuid.val ≠ [] := fun he => uuid.property
        (String.toList_eq_nil_iff.mp (List.map_eq_nil_iff.mp he))
      simpa [truthy] using hne
  · dsimp only
    cases payload <;> exact fun he => by cases he

-- What is written down is made again: nothing in it is left to be generated.
theorem fromDict_toDict (h : Complete isZero event) :
    fromDict isZero now uuid event.toDict = .ok event := by
  have hread : fromDict isZero now uuid event.toDict = init isZero now uuid event.name event.payload
      event.metadata (DateTime.fromisoformat event.timestamp.isoformat) event.eventId := rfl
  have hmetadata : truthy isZero event.metadata = true := truthy_of_contains (by decide) h.hasId
  have hpayload : orEmptyDict event.payload = event.payload := by
    cases hp : event.payload with
    | null => exact absurd hp h.payload
    | _ => rfl
  rw [hread, DateTime.fromisoformat_isoformat, init, orElse, orElse, if_pos h.eventId, if_pos hmetadata]
  simp only [Option.getD_some, mirror_of_contains h.hasId, mirror_of_contains h.hasTimestamp, hpayload, bind,
    Except.bind]
  rfl

theorem toDict_representable (hname : event.name.Representable finite)
    (hpayload : event.payload.Representable finite) (hmetadata : event.metadata.Representable finite)
    (hid : event.eventId.Representable finite) : (toDict event).Representable finite := by
  have hkeys : ([Str.ofString "event_id", .ofString "name", .ofString "payload", .ofString "metadata",
      .ofString "timestamp"]).Nodup := by decide
  exact ⟨hkeys, Json.paired_ofString _, hid, Json.paired_ofString _, hname, Json.paired_ofString _, hpayload,
    Json.paired_ofString _, hmetadata, Json.paired_ofString _, DateTime.paired_isoformat _, trivial⟩

theorem init_representable (hname : name.Representable finite) (hpayload : payload.Representable finite)
    (hmetadata : metadata.Representable finite) (hid : eventId.Representable finite)
    (h : init isZero now uuid name payload metadata timestamp eventId = .ok event) :
    (toDict event).Representable finite := by
  have hempty : (Json.dict [] : Json φ).Representable finite := ⟨List.nodup_nil, trivial⟩
  obtain ⟨withId, hwith, h⟩ := Json.bind_eq_ok.mp h
  obtain ⟨withTime, htime, h⟩ := Json.bind_eq_ok.mp h
  obtain rfl := Except.ok.inj h
  have hgiven : (orElse isZero eventId (.str (.ofString uuid.val))).Representable finite := by
    unfold orElse
    split
    · exact hid
    · exact Json.paired_ofString _
  have hfirst : (orElse isZero metadata (.dict [])).Representable finite := by
    unfold orElse
    split
    · exact hmetadata
    · exact hempty
  have hsecond := mirror_representable hgiven hfirst hwith
  have htext : (Json.str (timestamp.getD now).isoformat : Json φ).Representable finite :=
    DateTime.paired_isoformat _
  refine toDict_representable hname ?_ (mirror_representable htext hsecond htime) hgiven
  dsimp only
  cases payload <;> assumption

-- An event that was made from what the format can express arrives as it was sent.
theorem event_arrives (hl : Json.LawfulFloats floats finite)
    (h : init isZero now uuid name payload metadata timestamp eventId = .ok event)
    (hname : name.Representable finite) (hpayload : payload.Representable finite)
    (hmetadata : metadata.Representable finite) (hid : eventId.Representable finite) :
    ∃ text, Json.dumps floats event.toDict = .ok text ∧
      ∀ arrival fresh, receive isZero arrival fresh floats text = some (.ok event) := by
  have hwritten := init_representable hname hpayload hmetadata hid h
  obtain ⟨text, htext⟩ := Json.dumps_serializable floats event.toDict (hwritten.serializable _)
  refine ⟨text, htext, fun arrival fresh => ?_⟩
  rw [receive, Json.decode_dumps hl hwritten htext, Option.map_some,
    fromDict_toDict (init_complete h)]

section Sample

theorem noon_lt_endOfTime : 43200000000 < endOfTime := by
  decide

def noon : DateTime := ⟨43200000000, none, noon_lt_endOfTime, DateTime.no_isOffset⟩

def jobDone : Event Unit where
  name := .str (.ofString "job_done")
  payload := .dict [(.ofString "job", .int 7)]
  metadata := .dict [(.ofString "event_id", .str (.ofString "e1")), (.ofString "timestamp", .str noon.isoformat)]
  timestamp := noon
  eventId := .str (.ofString "e1")

theorem jobDone_made : init (fun _ => true) noon ⟨"e1", by decide⟩ jobDone.name jobDone.payload .null none
    .null = .ok jobDone := rfl

theorem event_arrives_job : ∃ text, Json.dumps Json.noFloats jobDone.toDict = .ok text ∧
    ∀ arrival fresh, receive (fun _ => true) arrival fresh Json.noFloats text = some (.ok jobDone) :=
  event_arrives Json.noFloats_lawful jobDone_made (Json.paired_ofString _)
    ⟨List.nodup_singleton _, Json.paired_ofString _, trivial, trivial⟩ trivial trivial

end Sample

end Event

end YasinCore.Events.Transport
