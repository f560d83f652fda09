import LinguaMesh.Domain.Errors
import LinguaMesh.Domain.Profile
import LinguaMesh.Storage.Selection

/-!
# Adapters

What `ProviderManager::connect` makes of a profile: the checks before it asks for a
secret, the references it resolves, and the configuration of the provider. The
provider crates and the parser of client certificates are a parameter.
-/

namespace LinguaMesh.Application

/-- `ModelDescriptor`, as the storage has it. -/
abbrev ModelDescriptor : Type := Storage.ModelRow

inductive Adapter where
  | ollamaChat | anthropicMessages | geminiGenerateContent | azureOpenaiChat | openaiResponses
  | openaiChatCompletions
  deriving DecidableEq, Repr

def Adapter.asStr : Adapter → Str
  | .ollamaChat => "ollama_chat".toList
  | .anthropicMessages => "anthropic_messages".toList
  | .geminiGenerateContent => "gemini_generate_content".toList
  | .azureOpenaiChat => "azure_openai_chat".toList
  | .openaiResponses => "openai_responses".toList
  | .openaiChatCompletions => "openai_chat_completions".toList

def Adapter.all : List Adapter :=
  [.ollamaChat, .anthropicMessages, .geminiGenerateContent, .azureOpenaiChat, .openaiResponses,
    .openaiChatCompletions]

def Adapter.parse (adapterType : Str) : Option Adapter := all.find? (·.asStr = adapterType)

def azureApiVersion : Str := "2024-10-21".toList

/-- The configuration of a provider. `modelId` is the Anthropic model or the Azure deployment. -/
structure ProviderConfig (Identity : Type) where
  adapter : Adapter
  baseUrl : Str
  modelId : Option Str
  apiVersion : Option Str
  credential : Option Str
  organization : Option Str
  project : Option Str
  proxyUrl : Option Str
  proxyAuthentication : Option Str
  requestTimeout : Nat
  connectionTimeout : Nat
  streamingIdleTimeout : Nat
  trustedCertificatesPem : Option Str
  clientCertificateIdentity : Option Identity
  customHeaders : Option Str
  secretCustomHeaders : Option Str

/-- The provider crates. The two OpenAI adapters have one endpoint check. -/
class Providers where
  Identity : Type
  ollamaEndpoint : Str → Except TranslationError Unit
  anthropicEndpoint : Str → Except TranslationError Unit
  geminiEndpoint : Str → Except TranslationError Unit
  openaiEndpoint : Str → Except TranslationError Unit
  azureEndpoint : (endpoint deployment apiVersion : Str) → Except TranslationError Unit
  parseIdentity : Str → Except TranslationError Identity
  newProvider : ProviderConfig Identity → Except TranslationError Unit

section Profiles

variable [Urls] [Uuids]

def deploymentError : TranslationError :=
  .new .invalidConfiguration "Select an Azure OpenAI deployment before connecting."

def anthropicModelError : TranslationError :=
  .new .invalidConfiguration "Select a manual Anthropic model before connecting."

def validateEndpoint [Providers] (profile : ProviderProfile) :
    Adapter → Except TranslationError Unit
  | .ollamaChat => Providers.ollamaEndpoint profile.baseEndpoint.text
  | .anthropicMessages => Providers.anthropicEndpoint profile.baseEndpoint.text
  | .geminiGenerateContent => Providers.geminiEndpoint profile.baseEndpoint.text
  | .azureOpenaiChat =>
    match profile.selectedModel with
    | none => .error deploymentError
    | some deployment =>
      Providers.azureEndpoint profile.baseEndpoint.text deployment azureApiVersion
  | .openaiResponses | .openaiChatCompletions =>
    Providers.openaiEndpoint profile.baseEndpoint.text

/-- `manual_model_id`. -/
def manualModelId (profile : ProviderProfile) : Adapter → Except TranslationError (Option Str)
  | .anthropicMessages =>
    match profile.selectedModel with
    | none => .error anthropicModelError
    | some model => .ok (some model)
  | .azureOpenaiChat =>
    match profile.selectedModel with
    | none => .error deploymentError
    | some model => .ok (some model)
  | _ => .ok none

/-- The checks before the first secret is asked for. -/
def checkProfile [Providers] (profile : ProviderProfile) :
    Except TranslationError (Adapter × Option Str) :=
  if !profile.enabled then
    .error (.new .invalidConfiguration "The provider profile is disabled.")
  else match Adapter.parse profile.adapterType with
    | none =>
      .error (.new .unsupportedCapability
        "The provider adapter is not supported by this Core build.")
    | some adapter => do
      validateEndpoint profile adapter
      let modelId ← manualModelId profile adapter
      .ok (adapter, modelId)

/-! ## Secrets -/

/-- The secrets of a profile. -/
inductive SecretField where
  | credential | secretCustomHeaders | proxyAuthentication | clientCertificateIdentity
  deriving DecidableEq, Repr

/-- The order in which they are resolved. -/
def SecretField.all : List SecretField :=
  [.credential, .secretCustomHeaders, .proxyAuthentication, .clientCertificateIdentity]

def SecretField.ref (profile : ProviderProfile) : SecretField → Option SecretRef
  | .credential => profile.secretRef
  | .secretCustomHeaders => profile.secretCustomHeadersRef
  | .proxyAuthentication => profile.proxyAuthRef
  | .clientCertificateIdentity => profile.clientCertificateIdentityRef

structure Credentials (Identity : Type) where
  credential : Option Str
  secretCustomHeaders : Option Str
  proxyAuthentication : Option Str
  clientCertificateIdentity : Option Identity

def Credentials.none {Identity : Type} : Credentials Identity := ⟨.none, .none, .none, .none⟩

/-- A secret that was resolved. -/
def Credentials.put [Providers] (credentials : Credentials Providers.Identity) (secret : Str) :
    SecretField → Except TranslationError (Credentials Providers.Identity)
  | .credential => .ok { credentials with credential := some secret }
  | .secretCustomHeaders => .ok { credentials with secretCustomHeaders := some secret }
  | .proxyAuthentication => .ok { credentials with proxyAuthentication := some secret }
  | .clientCertificateIdentity => do
    let identity ← Providers.parseIdentity secret
    .ok { credentials with clientCertificateIdentity := some identity }

/-! ## The configuration -/

/-- What every adapter takes from the profile. -/
def commonConfig {Identity : Type} (profile : ProviderProfile) (adapter : Adapter)
    (credentials : Credentials Identity) : ProviderConfig Identity where
  adapter
  baseUrl := profile.baseEndpoint.text
  modelId := none
  apiVersion := none
  credential := credentials.credential
  organization := none
  project := none
  proxyUrl := profile.proxyUrl
  proxyAuthentication := credentials.proxyAuthentication
  requestTimeout := profile.requestTimeoutSecs
  connectionTimeout := profile.connectionTimeoutSecs
  streamingIdleTimeout := profile.streamingIdleTimeoutSecs
  trustedCertificatesPem := profile.trustedCertificatesPem
  clientCertificateIdentity := credentials.clientCertificateIdentity
  customHeaders := none
  secretCustomHeaders := none

def providerConfig {Identity : Type} (profile : ProviderProfile) (adapter : Adapter)
    (modelId : Option Str) (credentials : Credentials Identity) :
    Except TranslationError (ProviderConfig Identity) :=
  let config := commonConfig profile adapter credentials
  match adapter with
  | .ollamaChat | .geminiGenerateContent => .ok config
  | .anthropicMessages =>
    match modelId with
    | none => .error anthropicModelError
    | some modelId => .ok { config with modelId := some modelId }
  | .azureOpenaiChat =>
    match modelId with
    | none => .error deploymentError
    | some deployment => .ok { config with
        modelId := some deployment
        apiVersion := some azureApiVersion
        customHeaders := profile.customHeaders
        secretCustomHeaders := credentials.secretCustomHeaders }
  | .openaiResponses | .openaiChatCompletions => .ok { config with
      organization := profile.organization
      project := profile.project
      customHeaders := profile.customHeaders
      secretCustomHeaders := credentials.secretCustomHeaders }

/-- The model that the user has filled in. -/
def manualModelDescriptor (profile : ProviderProfile) : Option ModelDescriptor :=
  profile.selectedModel.map fun model => ⟨model, model, .manual⟩

/-- The models of a connection, from what the provider lists. -/
def connectedModels (profile : ProviderProfile)
    (discovered : Except TranslationError (List ModelDescriptor)) :
    Except TranslationError (List ModelDescriptor) :=
  let fallback := match manualModelDescriptor profile with
    | some model => .ok [model]
    | none => .error (.new .modelUnavailable "The provider returned no models.")
  match discovered with
  | .ok [] => fallback
  | .ok models => .ok models
  | .error e => if e.kind = .modelUnavailable then fallback else .error e

end Profiles

end LinguaMesh.Application
