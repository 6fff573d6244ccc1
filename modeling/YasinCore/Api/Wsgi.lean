import YasinCore.Api.Validation
import YasinCore.Library.Json.Compact
import YasinCore.Library.Query
import YasinCore.Library.Text

namespace YasinCore.Api

open YasinCore.Library

variable {σ φ : Type}

def lowerAscii (s : String) : String := String.ofList (s.toList.map Char.toLower)

def upperAscii (s : String) : String := String.ofList (s.toList.map Char.toUpper)

-- str.lower and str.upper; what they make of characters beyond ASCII is left open.
structure Casing where
  lower : String → String
  upper : String → String
  lower_ascii : ∀ s : String, (∀ c ∈ s.toList, c.toNat < 128) → lower s = lowerAscii s
  upper_ascii : ∀ s : String, (∀ c ∈ s.toList, c.toNat < 128) → upper s = upperAscii s

-- Other characters are left as they are.
def Casing.ascii : Casing := ⟨lowerAscii, upperAscii, fun _ _ => rfl, fun _ _ => rfl⟩

def replaceChar (old new : Char) (s : String) : String :=
  String.ofList (s.toList.map fun c => if c = old then new else c)

def textOf (bytes : Bytes) : Option (List Char) := (Utf8.decode bytes).bind Utf8.chars?

def bytesOf (text : List Char) : Bytes := text.flatMap String.utf8EncodeChar

def strOf (text : List Char) : Str := text.map CodePoint.ofChar

-- A dictionary of texts as a value
def headersJson (headers : Dict String String) : Json φ :=
  .dict (headers.entries.map fun entry => (.ofString entry.1, .str (.ofString entry.2)))

-- A single value stands for itself, several ones are a list.
def queryJson (query : Dict (List Char) (List (List Char))) : Json φ :=
  .dict (query.entries.map fun entry => (strOf entry.1,
    match entry.2 with
    | [value] => .str (strOf value)
    | values => .list (values.map fun value => .str (strOf value))))

def APIRequest.init (casing : Casing) (method path : String) (headers : Dict String String)
    (queryParams body : Json φ) : APIRequest φ :=
  ⟨casing.upper method, path,
    headersJson (.ofEntries (headers.entries.map fun entry => (casing.lower entry.1, entry.2))),
    queryParams, body⟩

def APIResponse.toDict (response : APIResponse φ) : Json φ :=
  fields [("status_code", .int response.statusCode), ("data", response.data),
    ("errors", .list response.errors), ("version", text response.version)]

-- What a server hands over: the variables of the request, and the stream with its body.
structure Environ where
  items : Dict String String
  input : Option Bytes

namespace Environ

def get (environ : Environ) (name default : String) : String := (environ.items.get? name).getD default

def headerName? (casing : Casing) (key : String) : Option String :=
  if Text.startsWith "HTTP_" key then
    some (casing.lower (replaceChar '_' '-' (String.ofList (key.toList.drop 5))))
  else if key = "CONTENT_TYPE" ∨ key = "CONTENT_LENGTH" then
    some (casing.lower (replaceChar '_' '-' key))
  else none

def headers (casing : Casing) (environ : Environ) : Dict String String :=
  .ofEntries (environ.items.entries.filterMap fun entry =>
    (headerName? casing entry.1).map fun name => (name, entry.2))

def contentLength (environ : Environ) : Int :=
  match environ.items.get? "CONTENT_LENGTH" with
  | some length => (Text.int? length).getD 0
  | none => 0

end Environ

-- A body that is not UTF-8 or no document counts as none.
def loads (floats : Floats φ) (bytes : Bytes) : Json φ :=
  ((textOf bytes).bind (Json.decode floats)).getD .null

namespace Environ

def body (floats : Floats φ) (environ : Environ) : Json φ :=
  if environ.contentLength > 0 then
    match environ.input with
    | some bytes => loads floats (bytes.take environ.contentLength.toNat)
    | none => .null
  else .null

def request (casing : Casing) (floats : Floats φ) (environ : Environ) : APIRequest φ :=
  .init casing (environ.get "REQUEST_METHOD" "GET") (environ.get "PATH_INFO" "/") (environ.headers casing)
    (queryJson (Query.parseQs (environ.get "QUERY_STRING" "").toList)) (environ.body floats)

end Environ

structure HttpResponse where
  status : String
  headers : List (String × String)
  body : Bytes

def reason : Nat → String
  | 200 => "OK"
  | 201 => "Created"
  | 400 => "Bad Request"
  | 401 => "Unauthorized"
  | 403 => "Forbidden"
  | 404 => "Not Found"
  | _ => "Internal Server Error"

-- A response that cannot be written down is the exception of the encoder.
def APIResponse.toHttp (floats : Floats φ) (response : APIResponse φ) : Except String HttpResponse := do
  let body := bytesOf (← Json.dumps floats response.toDict)
  return ⟨toString response.statusCode ++ " " ++ reason response.statusCode,
    [("Content-Type", "application/json"), ("Content-Length", toString body.length)], body⟩

def APIGateway.wsgiApp (gateway : APIGateway σ φ) (casing : Casing) (floats : Floats φ) (environ : Environ)
    (w : World σ φ) : Except String HttpResponse × World σ φ :=
  let (response, t) := gateway.handleRequest (environ.request casing floats) w
  (response.toHttp floats, t)

section Server

-- A request as a client sends it, with the fields of a form in its query and perhaps a body
structure Sent where
  method : String
  path : String
  headers : Dict String String
  params : List (List Char × List Char)
  content : Option Bytes

-- A name in lower case, other than that of the length, which the server writes itself.
def HeaderName (name : String) : Prop :=
  name ≠ "content-length" ∧ ∀ c ∈ name.toList, 0x61 ≤ c.toNat ∧ c.toNat ≤ 0x7a ∨ c.isDigit ∨ c = '-'

def cgiName (name : String) : String :=
  if name = "content-type" then "CONTENT_TYPE" else "HTTP_" ++ upperAscii (replaceChar '-' '_' name)

namespace Sent

def lengthEntry (name : String) (sent : Sent) : List (String × String) :=
  match sent.content with
  | some bytes => [(name, toString bytes.length)]
  | none => []

-- The variables that a server sets
def items (sent : Sent) : List (String × String) :=
  [("REQUEST_METHOD", sent.method), ("PATH_INFO", sent.path),
    ("QUERY_STRING", String.ofList (Query.urlencode sent.params))] ++
    sent.headers.entries.map (fun entry => (cgiName entry.1, entry.2)) ++ sent.lengthEntry "CONTENT_LENGTH"

def environ (sent : Sent) : Environ := ⟨.ofEntries sent.items, sent.content⟩

structure Canonical (sent : Sent) : Prop where
  headers : ∀ entry ∈ sent.headers.entries, HeaderName entry.1
  params : ∀ param ∈ sent.params, param.2 ≠ []

-- The request that it is about
def request (casing : Casing) (floats : Floats φ) (sent : Sent) : APIRequest φ :=
  ⟨casing.upper sent.method, sent.path,
    headersJson (.ofEntries (sent.headers.entries ++ sent.lengthEntry "content-length")),
    queryJson (Query.grouped sent.params), (sent.content.map (loads floats)).getD .null⟩

end Sent

-- What a client reads: the code of the status line, and the value in a body of the given length.
def HttpResponse.read (floats : Floats φ) (http : HttpResponse) : Option (Int × Json φ) := do
  let code ← Text.int? ((Text.split ' ' http.status)[0]?.getD "")
  let length ← (http.headers.lookup "Content-Length").bind Text.int?
  guard (length = http.body.length)
  let value ← (textOf http.body).bind (Json.decode floats)
  return (code, value)

end Server

section Texts

variable {casing : Casing}

theorem textOf_bytesOf (text : List Char) : textOf (bytesOf text) = some text := by
  have hdecode : Utf8.decode (bytesOf text) = some (text.map CodePoint.ofChar) :=
    Utf8.decode_eq_some_iff.mpr ⟨text, rfl, rfl⟩
  rw [textOf, hdecode, Option.bind_some, Utf8.chars?_map]

theorem Casing.lower_eq {s t : String} (hascii : (s.toList.all fun c => decide (c.toNat < 128)) = true)
    (h : lowerAscii s = t) : casing.lower s = t :=
  (casing.lower_ascii s fun c hc => of_decide_eq_true (List.all_eq_true.mp hascii c hc)).trans h

-- What becomes of a character of a header's name in the name of a variable, and back.
def inVariable (c : Char) : Char := (if c = '-' then '_' else c).toUpper

def inHeader (c : Char) : Char := if c = '_' then '-' else c

theorem headerChar_back {c : Char} (h : 0x61 ≤ c.toNat ∧ c.toNat ≤ 0x7a ∨ c.isDigit ∨ c = '-') :
    c.toNat < 128 ∧ c.toLower = c ∧ (inHeader (inVariable c)).toNat < 128 ∧
      (inHeader (inVariable c)).toLower = c := by
  have hall : ∀ n < 128, (0x61 ≤ n ∧ n ≤ 0x7a ∨ (Char.ofNat n).isDigit ∨ Char.ofNat n = '-') →
      (Char.ofNat n).toLower = Char.ofNat n ∧ (inHeader (inVariable (Char.ofNat n))).toNat < 128 ∧
        (inHeader (inVariable (Char.ofNat n))).toLower = Char.ofNat n := by
    decide
  have hlt : c.toNat < 128 := by
    rcases h with h | h | rfl
    · omega
    · have hdigit : 48 ≤ c.toNat ∧ c.toNat ≤ 57 := Char.isDigit_iff_toNat.mp h
      omega
    · decide
  have hback := hall c.toNat hlt
  rw [Char.ofNat_toNat] at hback
  exact ⟨hlt, hback h⟩

theorem HeaderName.lower {name : String} (h : HeaderName name) : casing.lower name = name := by
  have hmap : name.toList.map Char.toLower = name.toList :=
    (List.map_congr_left fun c hc => (headerChar_back (h.2 c hc)).2.1).trans (List.map_id _)
  rw [casing.lower_ascii name fun c hc => (headerChar_back (h.2 c hc)).1, lowerAscii, hmap, String.ofList_toList]

theorem headerName?_of_startsWith {key : String} (h : Text.startsWith "HTTP_" key) :
    Environ.headerName? casing key =
      some (casing.lower (replaceChar '_' '-' (String.ofList (key.toList.drop 5)))) := if_pos h

theorem headerName?_of_ne {key : String} (hstarts : ¬Text.startsWith "HTTP_" key)
    (hkey : ¬(key = "CONTENT_TYPE" ∨ key = "CONTENT_LENGTH")) : Environ.headerName? casing key = none := by
  rw [Environ.headerName?, if_neg hstarts, if_neg hkey]

theorem headerName?_contentType : Environ.headerName? casing "CONTENT_TYPE" = some "content-type" :=
  congrArg some (casing.lower_eq (by decide) (by decide))

theorem headerName?_contentLength : Environ.headerName? casing "CONTENT_LENGTH" = some "content-length" :=
  congrArg some (casing.lower_eq (by decide) (by decide))

theorem headerName?_cgiName {name : String} (h : HeaderName name) :
    Environ.headerName? casing (cgiName name) = some name := by
  unfold cgiName
  split
  · rename_i htype
    rw [htype]
    exact headerName?_contentType
  · have hstarts : Text.startsWith "HTTP_" ("HTTP_" ++ upperAscii (replaceChar '-' '_' name)) = true :=
      Text.startsWith_iff.mpr ⟨_, rfl⟩
    have hdrop : ("HTTP_" ++ upperAscii (replaceChar '-' '_' name)).toList.drop 5 =
        (upperAscii (replaceChar '-' '_' name)).toList := by
      rw [String.toList_append]
      rfl
    have hback : (replaceChar '_' '-' (upperAscii (replaceChar '-' '_' name))).toList =
        name.toList.map fun c => inHeader (inVariable c) := by
      simp only [upperAscii, replaceChar, String.toList_ofList, List.map_map]
      rfl
    rw [headerName?_of_startsWith hstarts, hdrop, String.ofList_toList]
    refine congrArg some ((casing.lower_ascii _ fun c hc => ?_).trans (String.toList_injective ?_))
    · rw [hback] at hc
      obtain ⟨d, hd, rfl⟩ := List.mem_map.mp hc
      exact (headerChar_back (h.2 d hd)).2.2.1
    · rw [lowerAscii, String.toList_ofList, hback, List.map_map]
      refine (List.map_congr_left fun c hc => ?_).trans (List.map_id _)
      exact (headerChar_back (h.2 c hc)).2.2.2

end Texts

namespace Sent

variable {casing : Casing} {sent : Sent} {floats : Floats φ}

theorem lengthEntry_name {name : String} {entry : String × String} (h : entry ∈ sent.lengthEntry name) :
    entry.1 = name := by
  unfold lengthEntry at h
  split at h
  · rw [List.mem_singleton.mp h]
  · cases h

-- The variables that stand for no header
def requestNames : List String := ["REQUEST_METHOD", "PATH_INFO", "QUERY_STRING"]

theorem headerName?_requestNames {name : String} (h : name ∈ requestNames) :
    Environ.headerName? casing name = none := by
  have hnames : ∀ name ∈ requestNames, ¬Text.startsWith "HTTP_" name ∧
      ¬(name = "CONTENT_TYPE" ∨ name = "CONTENT_LENGTH") := by decide
  exact headerName?_of_ne (hnames name h).1 (hnames name h).2

theorem cgiName_notMem {name : String} (h : HeaderName name) : cgiName name ∉ requestNames := by
  intro hm
  have hnone : Environ.headerName? .ascii (cgiName name) = none := headerName?_requestNames hm
  rw [headerName?_cgiName h] at hnone
  cases hnone

theorem cgiName_ne_contentLength {name : String} (h : HeaderName name) : cgiName name ≠ "CONTENT_LENGTH" := by
  intro he
  have hback : Environ.headerName? .ascii (cgiName name) = some name := headerName?_cgiName h
  rw [he, headerName?_contentLength] at hback
  exact h.1 (Option.some.inj hback).symm

-- The variables of a request are told apart by the headers that they stand for.
theorem Canonical.items_nodup (h : sent.Canonical) : (sent.items.map Prod.fst).Nodup := by
  have hheaders : (sent.headers.entries.map fun entry => cgiName entry.1).Nodup := by
    have hinj : ∀ name ∈ sent.headers.keys, ∀ other ∈ sent.headers.keys,
        cgiName name = cgiName other → name = other := by
      intro name hn other ho heq
      obtain ⟨entry, he, rfl⟩ := List.mem_map.mp hn
      obtain ⟨entry', he', rfl⟩ := List.mem_map.mp ho
      have hback : Environ.headerName? .ascii (cgiName entry.1) = some entry.1 :=
        headerName?_cgiName (h.headers entry he)
      rw [heq, headerName?_cgiName (h.headers entry' he')] at hback
      exact (Option.some.inj hback).symm
    have hmap := List.Nodup.map_on hinj sent.headers.nodup
    rwa [Dict.keys, List.map_map] at hmap
  have hlength : ((sent.lengthEntry "CONTENT_LENGTH").map Prod.fst).Nodup := by
    unfold lengthEntry
    split
    · exact List.nodup_singleton _
    · exact List.nodup_nil
  rw [items, List.map_append, List.map_append, List.map_map]
  refine List.nodup_append.mpr ⟨List.nodup_append.mpr ⟨by simp, hheaders, ?_⟩, hlength, ?_⟩
  · rintro name hn other ho rfl
    obtain ⟨entry, he, rfl⟩ := List.mem_map.mp ho
    exact cgiName_notMem (h.headers entry he) hn
  · rintro name hn other ho rfl
    obtain ⟨entry, he, rfl⟩ := List.mem_map.mp ho
    rw [lengthEntry_name he] at hn
    rcases List.mem_append.mp hn with hn | hn
    · exact absurd hn (by simp)
    · obtain ⟨header, hh, hname⟩ := List.mem_map.mp hn
      exact cgiName_ne_contentLength (h.headers header hh) hname

theorem Canonical.entries (h : sent.Canonical) : sent.environ.items.entries = sent.items :=
  congrArg Dict.entries (Dict.ofEntries_of_nodup h.items_nodup)

-- What stands among the variables is found.
theorem Canonical.get? (h : sent.Canonical) {name value : String} (hm : (name, value) ∈ sent.items) :
    sent.environ.items.get? name = some value := by
  rw [Dict.get?, h.entries]
  exact Entries.lookup_of_mem h.items_nodup hm

theorem Canonical.environ_headers (h : sent.Canonical) : sent.environ.headers casing =
    .ofEntries (sent.headers.entries ++ sent.lengthEntry "content-length") := by
  have hfixed : [("REQUEST_METHOD", sent.method), ("PATH_INFO", sent.path),
      ("QUERY_STRING", String.ofList (Query.urlencode sent.params))].filterMap (fun entry =>
        (Environ.headerName? casing entry.1).map fun name => (name, entry.2)) = [] := by
    have hnone : ∀ name ∈ requestNames, Environ.headerName? casing name = none :=
      fun _ => headerName?_requestNames
    simp only [requestNames, List.forall_mem_cons] at hnone
    simp only [List.filterMap_cons, hnone.1, hnone.2.1, hnone.2.2.1, Option.map_none, List.filterMap_nil]
  have hheaders : (sent.headers.entries.map fun entry => (cgiName entry.1, entry.2)).filterMap (fun entry =>
      (Environ.headerName? casing entry.1).map fun name => (name, entry.2)) = sent.headers.entries := by
    rw [List.filterMap_map]
    refine (List.filterMap_congr fun entry he => ?_).trans List.filterMap_some
    rw [Function.comp_apply, headerName?_cgiName (h.headers entry he), Option.map_some]
  have hlength : (sent.lengthEntry "CONTENT_LENGTH").filterMap (fun entry =>
      (Environ.headerName? casing entry.1).map fun name => (name, entry.2)) =
        sent.lengthEntry "content-length" := by
    unfold lengthEntry
    split
    · simp only [List.filterMap_cons, headerName?_contentLength, Option.map_some, List.filterMap_nil]
    · rfl
  rw [Environ.headers, h.entries, items, List.filterMap_append, List.filterMap_append, hfixed, hheaders, hlength,
    List.nil_append]

theorem Canonical.contentLength (h : sent.Canonical) :
    sent.environ.contentLength = ((sent.content.map List.length).getD 0 : Nat) := by
  unfold Environ.contentLength
  cases hc : sent.content with
  | none =>
      have hnone : sent.environ.items.get? "CONTENT_LENGTH" = none := by
        rw [Dict.get?, h.entries, Entries.lookup_eq_none_iff, items, lengthEntry, hc, List.append_nil]
        intro hm
        rw [List.map_append, List.map_map] at hm
        rcases List.mem_append.mp hm with hm | hm
        · exact absurd hm (by simp)
        · obtain ⟨entry, he, hname⟩ := List.mem_map.mp hm
          exact cgiName_ne_contentLength (h.headers entry he) hname
      rw [hnone]
      rfl
  | some bytes =>
      have hm : ("CONTENT_LENGTH", toString bytes.length) ∈ sent.items := by
        rw [items, lengthEntry, hc]
        exact List.mem_append_right _ List.mem_cons_self
      rw [h.get? hm]
      exact congrArg (Option.getD · 0) (Text.int?_toString bytes.length)

theorem Canonical.environ_body (h : sent.Canonical) :
    sent.environ.body floats = (sent.content.map (loads floats)).getD .null := by
  rw [Environ.body, h.contentLength]
  have hinput : sent.environ.input = sent.content := rfl
  rw [hinput]
  cases sent.content with
  | none => rfl
  | some bytes =>
      cases bytes with
      | nil => rfl
      | cons b bytes =>
          rw [if_pos (by simp)]
          simp

-- A server hands over the request that it has been sent.
theorem Canonical.environ_request (h : sent.Canonical) :
    sent.environ.request casing floats = sent.request casing floats := by
  have hget {name value : String} (default : String) (hm : (name, value) ∈ [("REQUEST_METHOD", sent.method),
      ("PATH_INFO", sent.path), ("QUERY_STRING", String.ofList (Query.urlencode sent.params))]) :
      sent.environ.get name default = value := by
    rw [Environ.get, h.get? (List.mem_append_left _ (List.mem_append_left _ hm)), Option.getD_some]
  have hmethod : sent.environ.get "REQUEST_METHOD" "GET" = sent.method := hget _ (by simp)
  have hpath : sent.environ.get "PATH_INFO" "/" = sent.path := hget _ (by simp)
  have hquery : sent.environ.get "QUERY_STRING" "" = String.ofList (Query.urlencode sent.params) :=
    hget _ (by simp)
  have hnames : ((sent.headers.entries ++ sent.lengthEntry "content-length").map Prod.fst).Nodup := by
    rw [List.map_append]
    refine List.nodup_append.mpr ⟨sent.headers.nodup, ?_, ?_⟩
    · unfold lengthEntry
      split
      · exact List.nodup_singleton _
      · exact List.nodup_nil
    · rintro name hn other ho rfl
      obtain ⟨header, hh, hname⟩ := List.mem_map.mp hn
      obtain ⟨entry, he, rfl⟩ := List.mem_map.mp ho
      exact (h.headers header hh).1 (hname.trans (lengthEntry_name he))
  have hlower : (sent.headers.entries ++ sent.lengthEntry "content-length").map
      (fun entry => (casing.lower entry.1, entry.2)) =
        sent.headers.entries ++ sent.lengthEntry "content-length" := by
    refine (List.map_congr_left fun entry he => ?_).trans (List.map_id _)
    have hname : casing.lower entry.1 = entry.1 := by
      rcases List.mem_append.mp he with he | he
      · exact (h.headers entry he).lower
      · rw [lengthEntry_name he]
        exact casing.lower_eq (by decide) (by decide)
    rw [hname]
    rfl
  rw [Environ.request, APIRequest.init, h.environ_headers, h.environ_body, hmethod, hpath, hquery,
    String.toList_ofList, Query.parseQs_urlencode h.params, Dict.ofEntries_of_nodup hnames, hlower,
    Sent.request, Dict.ofEntries_of_nodup hnames]

end Sent

section Answers

variable {floats : Floats φ} {finite : φ → Prop} {response : APIResponse φ}

theorem status_code (code : Nat) :
    Text.int? ((Text.split ' ' (toString code ++ " " ++ reason code))[0]?.getD "") = some (code : Int) := by
  have hspace : ' ' ∉ (toString code).toList := fun hm => by
    rw [Nat.toString_eq_ofList_toDigits, String.toList_ofList] at hm
    exact absurd (Nat.isDigit_of_mem_toDigits (by decide) (by decide) hm) (by decide)
  have hsplit : Text.split ' ' (toString code ++ String.singleton ' ' ++ reason code) = _ :=
    Text.split_cons hspace (reason code)
  have hsingle : String.singleton ' ' = " " := by decide
  rw [← hsingle, hsplit]
  exact Text.int?_toString code

-- What is written of a response is what a client reads.
theorem toHttp_read (hl : Json.LawfulFloats floats finite) (h : response.toDict.Representable finite) :
    ∃ http, response.toHttp floats = .ok http ∧
      http.read floats = some ((response.statusCode : Int), response.toDict) := by
  obtain ⟨text, htext⟩ := Json.dumps_serializable floats response.toDict (h.serializable _)
  refine ⟨_, by rw [APIResponse.toHttp, htext]; rfl, ?_⟩
  have hlength : (List.lookup "Content-Length" [("Content-Type", "application/json"),
      ("Content-Length", toString (bytesOf text).length)]).bind Text.int? = some ((bytesOf text).length : Int) := by
    simp only [List.lookup_cons, beq_self_eq_true, Option.bind_some, Text.int?_toString,
      show ("Content-Length" == "Content-Type") = false by decide]
  have hbody : (textOf (bytesOf text)).bind (Json.decode floats) = some response.toDict := by
    rw [textOf_bytesOf, Option.bind_some, Json.decode_dumps hl h htext]
  rw [HttpResponse.read]
  dsimp only
  rw [status_code, hlength, hbody]
  simp

end Answers

namespace APIGateway

variable {gateway : APIGateway σ φ} {casing : Casing} {floats : Floats φ} {finite : φ → Prop} {sent : Sent}
  {w : World σ φ}

section Sample

def askHealth : Sent where
  method := "get"
  path := "/v1/health"
  headers := Dict.empty.set "x-api-key" "k1"
  params := [(['q'], ['a', ' ', '&'])]
  content := some [0x7b, 0x7d]

theorem askHealth_canonical : askHealth.Canonical where
  headers := by
    intro entry he
    obtain rfl := List.mem_singleton.mp he
    have hchars : ("x-api-key".toList.all fun c =>
        decide (0x61 ≤ c.toNat ∧ c.toNat ≤ 0x7a ∨ c.isDigit ∨ c = '-')) = true := by decide
    exact ⟨by decide, fun c hc => of_decide_eq_true (List.all_eq_true.mp hchars c hc)⟩
  params := by
    intro param hp
    obtain rfl := List.mem_singleton.mp hp
    exact List.cons_ne_nil _ _

theorem answer_representable :
    (APIResponse.success 200 (.null : Json Unit) "v1").toDict.Representable fun _ => False := by
  refine ⟨by decide, Json.paired_ofString _, trivial, Json.paired_ofString _, trivial, Json.paired_ofString _,
    trivial, Json.paired_ofString _, Json.paired_ofString _, trivial⟩

end Sample

end APIGateway

end YasinCore.Api
