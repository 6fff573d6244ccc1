import YasinCore.Library.Dict
import YasinCore.Library.Text

namespace YasinCore.Providers

open YasinCore.Library

-- Providers are objects: two names can stand for the same one.
abbrev ProviderRef := Nat

structure AIRequest where
  model : Option String
  extraParams : Dict String String

structure AIResponse where
  text : String
  model : String
  usage : Dict String Int

-- An exception with the name of its class
structure AIException where
  typeName : String
  message : String
  deriving DecidableEq

def aiProviderError (message : String) : AIException := ⟨"AIProviderError", message⟩

-- What a provider does with a request; σ is all that it can read or change.
structure Provider (σ : Type) where
  name : String
  generateResponse : AIRequest → EStateM AIException σ AIResponse

structure ProviderConfig where
  default : Option String
  fallbacks : Option (List String)

-- The configuration is there when there is a client that has one.
structure ProviderManager (σ : Type) where
  registry : Dict String ProviderRef
  providers : ProviderRef → Provider σ
  config : Option ProviderConfig

structure MetricsRecord where
  providerName : String
  model : String
  promptTokens : Int
  completionTokens : Int
  totalTokens : Int
  success : Bool
  errorType : Option String

-- The providers that have been called so far, what has been recorded about the calls, and the rest
structure World (σ : Type) where
  calls : List ProviderRef
  recorded : List MetricsRecord
  rest : σ

namespace ProviderManager

variable {σ : Type}

def getProvider (manager : ProviderManager σ) (name : String) : Option ProviderRef :=
  manager.registry.get? name

def listProviders (manager : ProviderManager σ) : List String := manager.registry.keys

-- An explicit provider, the one before the slash in the model, the default, mock, or else the first one
def routeRequest (manager : ProviderManager σ) (request : AIRequest) : Except AIException ProviderRef :=
  let explicit := (request.extraParams.get? "provider").bind manager.getProvider
  let ofModel := request.model.bind fun model =>
    if '/' ∈ model.toList then manager.getProvider ((Text.split '/' model)[0]?.getD "") else none
  let configured := (manager.config.bind (·.default)).bind fun name =>
    if name ≠ "" then manager.getProvider name else none
  let available := manager.getProvider "mock" <|> manager.listProviders[0]?.bind manager.getProvider
  match explicit <|> ofModel <|> configured <|> available with
  | some provider => .ok provider
  | none => .error (aiProviderError "No registered AI providers found.")

def configuredFallbacks (manager : ProviderManager σ) : List String :=
  (manager.config.bind (·.fallbacks)).getD []

-- An empty chain is as good as none.
def fallbackNames (manager : ProviderManager σ) (fallbackChain : Option (List String)) : List String :=
  match fallbackChain with
  | some (name :: names) => name :: names
  | some [] | none => manager.configuredFallbacks

def tryProviders (manager : ProviderManager σ) (provider : ProviderRef) (chain : List String) :
    List ProviderRef :=
  chain.foldl (fun tried name =>
    match manager.getProvider name with
    | some p => if p ∈ tried then tried else tried ++ [p]
    | none => tried) [provider]

-- request.model or "unknown"
def modelName (request : AIRequest) : String := (request.model.filter (· ≠ "")).getD "unknown"

def recordSuccess (manager : ProviderManager σ) (request : AIRequest) (p : ProviderRef)
    (res : AIResponse) : MetricsRecord where
  providerName := (manager.providers p).name
  model := modelName request
  promptTokens := (res.usage.get? "prompt_tokens").getD 0
  completionTokens := (res.usage.get? "completion_tokens").getD 0
  totalTokens := (res.usage.get? "total_tokens").getD 0
  success := true
  errorType := none

def recordFailure (manager : ProviderManager σ) (request : AIRequest) (p : ProviderRef)
    (e : AIException) : MetricsRecord where
  providerName := (manager.providers p).name
  model := modelName request
  promptTokens := 0
  completionTokens := 0
  totalTokens := 0
  success := false
  errorType := some e.typeName

-- The loop over the providers, with the last exception so far
def attempt (manager : ProviderManager σ) (request : AIRequest) (lastError : Option AIException) :
    List ProviderRef → EStateM AIException (World σ) AIResponse
  | [] => throw (lastError.getD
      (aiProviderError "AI Provider generation failed on all attempted providers."))
  | p :: rest => fun w =>
      match (manager.providers p).generateResponse request w.rest with
      | .ok res s =>
          .ok res ⟨w.calls ++ [p], w.recorded ++ [manager.recordSuccess request p res], s⟩
      | .error e s =>
          attempt manager request (some e) rest
            ⟨w.calls ++ [p], w.recorded ++ [manager.recordFailure request p e], s⟩

def generateResponse (manager : ProviderManager σ) (request : AIRequest)
    (fallbackChain : Option (List String)) : EStateM AIException (World σ) AIResponse :=
  match manager.routeRequest request with
  | .error e => throw (aiProviderError ("Routing failed: " ++ e.message))
  | .ok provider =>
      manager.attempt request none
        (manager.tryProviders provider (manager.fallbackNames fallbackChain))

end ProviderManager

end YasinCore.Providers
