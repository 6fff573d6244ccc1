import YasinCore.Api.Wsgi
import YasinCore.Library.Purge

namespace YasinCore.Api

open YasinCore.Library

variable {σ φ : Type}

structure APIKeyAuthenticator where
  allowedKeys : List Str
  required : Bool

def isSpaceCode (c : CodePoint) : Bool := Text.spaces.contains c.val

def strip (s : Str) : Str := (s.dropWhile isSpaceCode).rdropWhile isSpaceCode

def lowerCode (c : CodePoint) : CodePoint := if 0x41 ≤ c.val ∧ c.val ≤ 0x5a then c + 32 else c

-- Of the characters only the letters in ASCII have lower cases that are letters of this word.
def startsWithBearer (header : Str) : Bool := (header.take 7).map lowerCode = Str.ofString "bearer "

namespace APIKeyAuthenticator

-- request.headers.get(name, "")
def header (headers : Json φ) (name : String) : Except (Raised φ) (Json φ) :=
  match headers with
  | .dict entries => return (Entries.lookup (.ofString name) entries).getD (.str [])
  | value => throw (.other (.ofString ("'" ++ typeName value ++ "' object has no attribute 'get'")))

-- A header that is to have a method of texts
def asText (method : String) : Json φ → Except (Raised φ) Str
  | .str s => return s
  | value =>
      throw (.other (.ofString ("'" ++ typeName value ++ "' object has no attribute '" ++ method ++ "'")))

def token (headers : Json φ) : Except (Raised φ) Str := do
  let authHeader ← header headers "authorization"
  let apiKey ← header headers "x-api-key"
  let authHeader ← asText "lower" authHeader
  if startsWithBearer authHeader then return strip (authHeader.drop 7)
  else if authHeader ≠ [] then return strip authHeader
  else return strip (← asText "strip" apiKey)

def authenticate (auth : APIKeyAuthenticator) (request : APIRequest φ) : Except (Raised φ) Unit := do
  if auth.required = false ∧ auth.allowedKeys = [] then return ()
  let token ← token request.headers
  if token = [] then
    if auth.required then
      throw (.api ⟨.ofString "Authentication token is missing.", .unauthorized, 401, []⟩)
    return ()
  if auth.allowedKeys ≠ [] ∧ token ∉ auth.allowedKeys then
    throw (.api ⟨.ofString "Invalid authentication token.", .forbidden, 403, []⟩)

end APIKeyAuthenticator

section Policy

-- The key that a client presents: with or without the word before it, else the one in a header of its own
def presented (headers : Dict String String) : Str :=
  let authorization := Str.ofString ((headers.get? "authorization").getD "")
  if startsWithBearer authorization then strip (authorization.drop 7)
  else if authorization ≠ [] then strip authorization
  else strip (.ofString ((headers.get? "x-api-key").getD ""))

-- No key is enough where none is required, and any key where none is listed.
def APIKeyAuthenticator.Accepts (auth : APIKeyAuthenticator) (key : Str) : Prop :=
  if key = [] then auth.required = false else auth.allowedKeys = [] ∨ key ∈ auth.allowedKeys

instance (auth : APIKeyAuthenticator) (key : Str) : Decidable (auth.Accepts key) :=
  inferInstanceAs (Decidable (if key = [] then auth.required = false
    else auth.allowedKeys = [] ∨ key ∈ auth.allowedKeys))

-- The headers of the request that an environment is about
def Environ.requestHeaders (casing : Casing) (environ : Environ) : Dict String String :=
  .ofEntries ((environ.headers casing).entries.map fun entry => (casing.lower entry.1, entry.2))

structure Admitted (casing : Casing) (auth : APIKeyAuthenticator) (environ : Environ) : Prop where
  method : casing.upper (environ.get "REQUEST_METHOD" "GET") ≠ ""
  path : environ.get "PATH_INFO" "/" ≠ ""
  key : auth.required = false ∧ auth.allowedKeys = [] ∨
    auth.Accepts (presented (environ.requestHeaders casing))

instance (casing : Casing) (auth : APIKeyAuthenticator) (environ : Environ) :
    Decidable (Admitted casing auth environ) :=
  decidable_of_iff (casing.upper (environ.get "REQUEST_METHOD" "GET") ≠ "" ∧
      environ.get "PATH_INFO" "/" ≠ "" ∧ (auth.required = false ∧ auth.allowedKeys = [] ∨
        auth.Accepts (presented (environ.requestHeaders casing))))
    ⟨fun ⟨hmethod, hpath, hkey⟩ => ⟨hmethod, hpath, hkey⟩, fun h => ⟨h.method, h.path, h.key⟩⟩

end Policy

def APIGateway.guardedBy (auth : APIKeyAuthenticator) (gateway : APIGateway σ φ) : APIGateway σ φ :=
  { gateway with authenticate := auth.authenticate }

-- The same without a door
def APIGateway.opened (gateway : APIGateway σ φ) : APIGateway σ φ :=
  { gateway with authenticate := fun _ => .ok () }

section Headers

variable {headers : Dict String String}

theorem lookup_headersJson (entries : List (String × String)) (name : String) :
    Entries.lookup (.ofString name) (entries.map fun entry =>
      (Str.ofString entry.1, (Json.str (.ofString entry.2) : Json φ))) =
        (Entries.lookup name entries).map fun value => .str (.ofString value) := by
  induction entries with
  | nil => rfl
  | cons entry entries ih =>
      by_cases h : entry.1 = name
      · simp [Entries.lookup, h]
      · have hne : Str.ofString entry.1 ≠ .ofString name := fun he => h (Str.ofString_injective he)
        simp [Entries.lookup, h, hne, ih]

theorem header_headersJson (name : String) : APIKeyAuthenticator.header (headersJson headers : Json φ) name =
    .ok (.str (.ofString ((headers.get? name).getD ""))) := by
  have hread : APIKeyAuthenticator.header (headersJson headers : Json φ) name = .ok
      ((Entries.lookup (.ofString name) (headers.entries.map fun entry =>
        (Str.ofString entry.1, Json.str (.ofString entry.2)))).getD (.str [])) := rfl
  rw [hread, lookup_headersJson, Dict.get?]
  cases Entries.lookup name headers.entries <;> rfl

theorem token_headersJson :
    APIKeyAuthenticator.token (headersJson headers : Json φ) = .ok (presented headers) := by
  unfold APIKeyAuthenticator.token presented
  rw [header_headersJson, header_headersJson]
  simp only [bind, Except.bind, APIKeyAuthenticator.asText, pure, Except.pure]
  split
  · rfl
  · split <;> rfl

-- An error that a client without a key is answered with.
inductive Denied : Raised φ → Prop
  | malformed (message : Str) : Denied (.value message)
  | missing (message : Str) : Denied (.api ⟨message, .unauthorized, 401, []⟩)
  | unknown (message : Str) : Denied (.api ⟨message, .forbidden, 403, []⟩)

theorem authenticate_cases (auth : APIKeyAuthenticator) (request : APIRequest φ)
    (h : request.headers = headersJson headers) :
    (auth.authenticate request = .ok () ∧
      (auth.required = false ∧ auth.allowedKeys = [] ∨ auth.Accepts (presented headers))) ∨
    ∃ e, auth.authenticate request = .error e ∧ Denied e ∧
      ¬(auth.required = false ∧ auth.allowedKeys = [] ∨ auth.Accepts (presented headers)) := by
  unfold APIKeyAuthenticator.authenticate
  rw [h, token_headersJson]
  by_cases hopen : auth.required = false ∧ auth.allowedKeys = []
  · rw [if_pos hopen]
    exact .inl ⟨rfl, .inl hopen⟩
  rw [if_neg hopen]
  simp only [bind, Except.bind, pure, Except.pure, hopen, false_or, APIKeyAuthenticator.Accepts]
  by_cases hkey : presented headers = []
  · rw [if_pos hkey, if_pos hkey]
    cases hrequired : auth.required with
    | true => exact .inr ⟨_, rfl, .missing _, by simp⟩
    | false => exact .inl ⟨rfl, rfl⟩
  · rw [if_neg hkey, if_neg hkey]
    by_cases hlisted : auth.allowedKeys ≠ [] ∧ presented headers ∉ auth.allowedKeys
    · rw [if_pos hlisted]
      exact .inr ⟨_, rfl, .unknown _, by simpa using hlisted⟩
    · rw [if_neg hlisted]
      refine .inl ⟨rfl, ?_⟩
      by_contra hnot
      exact hlisted (not_or.mp hnot)

end Headers

-- The answers to what is not admitted
def denials : List String := ["400 Bad Request", "401 Unauthorized", "403 Forbidden"]

-- The answer to a denial can always be written.
theorem toHttp_denied (host : Host σ φ) (floats : Floats φ) {e : Raised φ} (h : Denied e) (version : String) :
    ∃ http, (APIResponse.failure (APIGateway.errorFor host e) version).toHttp floats = .ok http ∧
      http.status ∈ denials := by
  have hserializable : (APIResponse.failure (APIGateway.errorFor host e) version).toDict.Serializable := by
    cases h <;> simp [APIResponse.failure, APIGateway.errorFor, APIResponse.toDict, APIError.toDict, fields,
      text, Json.Serializable, Json.SerializableEntries, Json.SerializableItems]
  obtain ⟨text, htext⟩ := Json.dumps_serializable floats _ hserializable
  refine ⟨_, by rw [APIResponse.toHttp, htext]; rfl, ?_⟩
  cases h
  · exact (by decide : toString 400 ++ " " ++ reason 400 ∈ denials)
  · exact (by decide : toString 401 ++ " " ++ reason 401 ∈ denials)
  · exact (by decide : toString 403 ++ " " ++ reason 403 ∈ denials)

namespace APIGateway

variable {gateway : APIGateway σ φ} {casing : Casing} {auth : APIKeyAuthenticator} {floats : Floats φ}
  {environ : Environ} {w : World σ φ}

theorem validate_cases (floats : Floats φ) (environ : Environ) :
    ((environ.request casing floats).validate = .ok () ∧
      casing.upper (environ.get "REQUEST_METHOD" "GET") ≠ "" ∧ environ.get "PATH_INFO" "/" ≠ "") ∨
    ∃ message, (environ.request casing floats).validate = .error (.value message) ∧
      ¬(casing.upper (environ.get "REQUEST_METHOD" "GET") ≠ "" ∧ environ.get "PATH_INFO" "/" ≠ "") := by
  unfold APIRequest.validate Environ.request APIRequest.init
  by_cases hmethod : casing.upper (environ.get "REQUEST_METHOD" "GET") = ""
  · exact .inr ⟨_, by rw [if_pos hmethod]; rfl, fun h => h.1 hmethod⟩
  by_cases hpath : environ.get "PATH_INFO" "/" = ""
  · exact .inr ⟨_, by rw [if_neg hmethod, if_pos hpath]; rfl, fun h => h.2 hpath⟩
  · exact .inl ⟨by rw [if_neg hmethod, if_neg hpath]; rfl, hmethod, hpath⟩

-- A request that is not admitted ends before a handler is looked for.
theorem dispatch_denied (h : ¬Admitted casing auth environ) :
    ∃ e, Denied e ∧ (gateway.guardedBy auth).dispatch (environ.request casing floats) w = .error e w := by
  unfold dispatch
  rcases validate_cases floats environ with ⟨hvalid, hmethod, hpath⟩ | ⟨message, hinvalid, -⟩
  · rcases authenticate_cases auth (environ.request casing floats) rfl with ⟨-, hkey⟩ | ⟨e, hdenied, he, -⟩
    · exact absurd ⟨hmethod, hpath, hkey⟩ h
    · refine ⟨e, he, ?_⟩
      rw [hvalid, show (gateway.guardedBy auth).authenticate = auth.authenticate from rfl, hdenied]
      rfl
  · exact ⟨_, .malformed message, by rw [hinvalid]; rfl⟩

theorem wsgiApp_denied (gateway : APIGateway σ φ) (floats : Floats φ) (w : World σ φ)
    (h : ¬Admitted casing auth environ) :
    ∃ http, (gateway.guardedBy auth).wsgiApp casing floats environ w = (.ok http, w) ∧
      http.status ∈ denials := by
  obtain ⟨e, he, hdispatch⟩ : ∃ e, Denied e ∧
      (gateway.guardedBy auth).dispatch (environ.request casing floats) w = .error e w := dispatch_denied h
  unfold wsgiApp handleRequest
  rw [hdispatch]
  obtain ⟨http, hhttp, hstatus⟩ := toHttp_denied gateway.host floats he _
  exact ⟨http, congrArg (·, w) hhttp, hstatus⟩

-- A request that is admitted finds the door open.
theorem dispatch_admitted (h : Admitted casing auth environ) :
    (gateway.guardedBy auth).dispatch (environ.request casing floats) =
      gateway.opened.dispatch (environ.request casing floats) := by
  have hguarded : (gateway.guardedBy auth).authenticate (environ.request casing floats) = .ok () := by
    rcases authenticate_cases auth (environ.request casing floats) rfl with ⟨hok, -⟩ | ⟨-, -, -, hnot⟩
    · exact hok
    · exact absurd h.key hnot
  unfold dispatch
  rw [hguarded]
  rfl

end APIGateway

end YasinCore.Api
